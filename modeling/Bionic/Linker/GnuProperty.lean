import Bionic.Lib.ByteMemory
import Bionic.Linker.ReservePadding

/-!
# `GnuPropertySection`: the `PT_GNU_PROPERTY` note

The linker reads a library's program properties from its `PT_GNU_PROPERTY` segment
(linker_note_gnu_property.cpp). `FindSegment` takes the first such entry of the program header
table and checks that the segment holds the note header and `n_descsz` bytes of descriptor,
`SanityCheck` checks the note's type and owner `"GNU"`, and `Parse` walks the descriptor: a
property record is a header `(pr_type, pr_datasz)` and `pr_datasz` bytes of data, padded to
`sizeof(ElfW(Addr))`. On aarch64 the record `GNU_PROPERTY_AARCH64_FEATURE_1_AND` sets
`bti_compatible`.

The segment's bytes are a memory `Mem` at byte addresses; the note of an entry lies at
`load_bias + p_vaddr`. Every word the code loads is recorded by its address (the owner name,
compared by `strncmp` over at most four bytes, counts as one load of four). The repeated loads of
`n_descsz` in `Parse` load the word `FindSegment` loaded and are not recorded again. `Parse`'s loop
runs on fuel: `parseLoop` returns the state after the passes made and `some ok` once `Parse` has
returned `ok`.

Every load lies inside the first `PT_GNU_PROPERTY` segment, on every target and input and after
any number of passes (`gnuPropertySection_loads_inside`). A record whose `pr_datasz` is at most
`2^32 - 16` is accepted only when its header and data, rounded up, fit in what is left of the
descriptor, and the offset then moves past it (`parseBody_record_fits`); with only such records
`Parse` returns (`parseLoop_returns`).

`property_size` is computed on `uintptr_t` and narrowed to the 32-bit `ElfW(Word)`: for
`pr_datasz` from `2^32 - 8 - (sizeof(ElfW(Addr)) - 1)` to `2^32 - 8` it is `0`
(`propertySize_eq_zero_iff`). Such a record passes both size checks and leaves the offset where it
was, and the constructor never returns (`gnuPropertySection_never_returns`).
-/

set_option autoImplicit false
set_option relaxedAutoImplicit false

namespace Bionic.Linker.GnuProperty

open Bionic.Lib.ByteMemory
open Bionic.Linker.ReservePadding (alignUp alignDown)

/-! ### The model -/

/-- The target: LP64 (`ElfW` is `Elf64`, `uintptr_t` has 64 bits) or ILP32, and whether it is
aarch64, the one target with a property case; aarch64 is LP64. -/
structure Target where
  lp64 : Bool
  aarch64 : Bool
  lp64_of_aarch64 : aarch64 = true → lp64 = true

/-- The width of `uintptr_t` and `size_t`. -/
def Target.wordBits (t : Target) : ℕ := if t.lp64 then 64 else 32

/-- `sizeof(ElfW(Addr))`. -/
def Target.addrSize (t : Target) : ℕ := if t.lp64 then 8 else 4

/-- `ElfW(Phdr)`, the fields `FindSegment` reads. -/
structure Phdr where
  pType : UInt32
  pVaddr : ℕ
  pMemsz : ℕ
  deriving DecidableEq, Repr

def ptGnuProperty : UInt32 := 0x6474e553

def ntGnuPropertyType0 : UInt32 := 5

def gnuPropertyAarch64Feature1And : UInt32 := 0xc0000000

def gnuPropertyAarch64Feature1Bti : UInt32 := 1

/-- `sizeof(ElfW(NhdrGNUProperty))`: the 12-byte note header and the 4 bytes of the name. -/
def sizeofNhdrGNUProperty : ℕ := 16

/-- `sizeof(ElfW(Prop))`: `pr_type` and `pr_datasz`. -/
def sizeofProp : ℕ := 8

/-- The owner name `"GNU"` with its NUL. -/
def gnuName : List UInt8 := [0x47, 0x4e, 0x55, 0]

/-- `FindSegment`: the first `PT_GNU_PROPERTY` entry decides. It is returned if its segment holds
the note header and `n_descsz` bytes after it, with the loads made. -/
def findSegment (m : Mem) (loadBias : ℕ) : List Phdr → Option Phdr × List ℕ
  | [] => (none, [])
  | p :: phdrs =>
    if p.pType ≠ ptGnuProperty then findSegment m loadBias phdrs
    else if p.pMemsz < sizeofNhdrGNUProperty then (none, [])
    else
      let note := loadBias + p.pVaddr
      -- `n_descsz` is the second word of the header
      if p.pMemsz - sizeofNhdrGNUProperty < (load32 m (note + 4)).toNat then (none, [note + 4])
      else (some p, [note + 4])

/-- `SanityCheck`: the note's type, name size and name, with the loads made. -/
def sanityCheck (m : Mem) (note : ℕ) : Bool × List ℕ :=
  if load32 m (note + 8) ≠ ntGnuPropertyType0 then (false, [note + 8])
  else if load32 m note ≠ 4 then (false, [note + 8, note])
  else (window m (note + 12) 4 == gnuName, [note + 8, note, note + 12])

/-- `property_size`: `align_up(sizeof(ElfW(Prop)) + pr_datasz, sizeof(ElfW(Addr)))`, the sum and
the rounding on `uintptr_t`, narrowed to `ElfW(Word)`. -/
def propertySize (t : Target) (prDatasz : UInt32) : UInt32 :=
  UInt32.ofNat (alignUp t.wordBits ((sizeofProp + prDatasz.toNat) % 2 ^ t.wordBits) t.addrSize)

/-- `Parse`'s state: `offset`, `properties_.bti_compatible`, and the loads made so far. -/
structure ParseState where
  offset : UInt32
  btiCompatible : Bool
  loads : List ℕ
  deriving DecidableEq, Repr

/-- The address of the record at `offset`: `&note_nhdr->n_desc[offset]`. -/
def propertyAddr (note : ℕ) (offset : UInt32) : ℕ := note + sizeofNhdrGNUProperty + offset.toNat

/-- One pass of `Parse`'s loop body: the state after it, and `some ok` where `Parse` returns `ok`. -/
def parseBody (t : Target) (m : Mem) (note : ℕ) (nDescsz : UInt32) (s : ParseState) :
    ParseState × Option Bool :=
  -- at least the header part must fit
  if (nDescsz - s.offset).toNat < sizeofProp then (s, some false)
  else
    let property := propertyAddr note s.offset
    let prDatasz := load32 m (property + 4)
    let s := { s with loads := s.loads ++ [property + 4] }
    if nDescsz - s.offset < propertySize t prDatasz then (s, some false)
    else
      let prType := load32 m property
      let s := { s with loads := s.loads ++ [property] }
      if t.aarch64 = true ∧ prType = gnuPropertyAarch64Feature1And then
        if prDatasz ≠ 4 then (s, some false)
        else
          let flags := load32 m (property + 8)
          ({ offset := s.offset + propertySize t prDatasz
             btiCompatible := flags &&& gnuPropertyAarch64Feature1Bti != 0
             loads := s.loads ++ [property + 8] }, none)
      else ({ s with offset := s.offset + propertySize t prDatasz }, none)

/-- `Parse`'s loop after at most `fuel` passes: the state, and `some ok` once `Parse` has returned
`ok`. -/
def parseLoop (t : Target) (m : Mem) (note : ℕ) (nDescsz : UInt32) :
    ℕ → ParseState → ParseState × Option Bool
  | 0, s => (s, none)
  | fuel + 1, s =>
    if s.offset < nDescsz then
      match parseBody t m note nDescsz s with
      | (s', some ok) => (s', some ok)
      | (s', none) => parseLoop t m note nDescsz fuel s'
    else (s, some true)

/-- The constructor `GnuPropertySection(phdr, phdr_count, load_bias, name)` after at most `fuel`
passes of `Parse`'s loop: the state `Parse` leaves (with `properties_`) and whether the constructor
has returned. -/
def gnuPropertySection (t : Target) (m : Mem) (loadBias : ℕ) (phdrs : List Phdr) (fuel : ℕ) :
    ParseState × Bool :=
  match findSegment m loadBias phdrs with
  | (none, loads) => (⟨0, false, loads⟩, true)
  | (some p, loads) =>
    let note := loadBias + p.pVaddr
    match sanityCheck m note with
    | (false, loads') => (⟨0, false, loads ++ loads'⟩, true)
    | (true, loads') =>
      let r := parseLoop t m note (load32 m (note + 4)) fuel ⟨0, false, loads ++ loads'⟩
      (r.1, r.2.isSome)

/-- An aarch64 target, and an ILP32 one. -/
def aarch64 : Target := ⟨true, true, fun _ ↦ rfl⟩

def ilp32 : Target := ⟨false, false, fun h ↦ Bool.noConfusion h⟩

/-- A segment at address `0` holding `bytes`, and a `PT_GNU_PROPERTY` entry of `size` bytes for
it. -/
def noteMem (bytes : List UInt8) : Mem := fun a ↦ bytes.getD a 0

def gnuPropertyPhdr (size : ℕ) : Phdr := ⟨ptGnuProperty, 0, size⟩

/-- A BTI note: one `GNU_PROPERTY_AARCH64_FEATURE_1_AND` record with the BTI flag, padded to 8. -/
def btiNote : List UInt8 :=
  [4, 0, 0, 0, 16, 0, 0, 0, 5, 0, 0, 0, 0x47, 0x4e, 0x55, 0,
    0, 0, 0, 0xc0, 4, 0, 0, 0, 1, 0, 0, 0, 0, 0, 0, 0]

/-- A note whose descriptor holds one record header with `pr_type` `0` and `pr_datasz`
`0xfffffff8`. -/
def hugeRecordNote : List UInt8 :=
  [4, 0, 0, 0, 8, 0, 0, 0, 5, 0, 0, 0, 0x47, 0x4e, 0x55, 0, 0, 0, 0, 0, 0xf8, 0xff, 0xff, 0xff]

example : (gnuPropertySection aarch64 (noteMem btiNote) 0 [gnuPropertyPhdr 32] 2).1.btiCompatible =
    true := by
  decide

/-! ### What the checks are for -/

/-- The bytes a record takes: its header and `pr_datasz` bytes of data, rounded up to
`sizeof(ElfW(Addr))`, with no wrapping. -/
def paddedRecordSize (t : Target) (prDatasz : ℕ) : ℕ :=
  (sizeofProp + prDatasz + t.addrSize - 1) / t.addrSize * t.addrSize

/-- Every word loaded (four bytes from each address) lies in `[lo, hi)`. -/
def LoadsIn (lo hi : ℕ) (loads : List ℕ) : Prop := ∀ a ∈ loads, lo ≤ a ∧ a + 4 ≤ hi

theorem loadsIn_append {lo hi : ℕ} {xs ys : List ℕ} :
    LoadsIn lo hi (xs ++ ys) ↔ LoadsIn lo hi xs ∧ LoadsIn lo hi ys :=
  List.forall_mem_append

theorem LoadsIn.mono {lo hi lo' hi' : ℕ} {loads : List ℕ} (h : LoadsIn lo hi loads)
    (hlo : lo' ≤ lo) (hhi : hi ≤ hi') : LoadsIn lo' hi' loads :=
  fun a ha ↦ ⟨hlo.trans (h a ha).1, (h a ha).2.trans hhi⟩

/-! ### `property_size` -/

theorem Target.addrSize_of_lp64 {t : Target} (h : t.lp64 = true) : t.addrSize = 8 := by
  simp [Target.addrSize, h]

/-- `property_size` for a `pr_datasz` at most `2^32 - 16` is the padded record size, with no wrap
on any target. -/
theorem toNat_propertySize {t : Target} {d : UInt32} (hd : d.toNat + 16 ≤ 2 ^ 32) :
    (propertySize t d).toNat = paddedRecordSize t d.toNat := by
  unfold propertySize alignUp alignDown paddedRecordSize Target.wordBits Target.addrSize sizeofProp
  cases t.lp64 <;>
    simp only [Bool.false_eq_true, if_false, if_true, UInt32.toNat_ofNat', Nat.reducePow] <;> omega

theorem sizeofProp_le_paddedRecordSize (t : Target) (d : ℕ) :
    sizeofProp ≤ paddedRecordSize t d := by
  unfold paddedRecordSize Target.addrSize sizeofProp
  split <;> omega

/-- `property_size` is `0` exactly for `pr_datasz` from `2^32 - 8 - (sizeof(ElfW(Addr)) - 1)` to
`2^32 - 8`: the sum rounds up to `2^32`, which the narrowing to `ElfW(Word)` drops. -/
theorem propertySize_eq_zero_iff {t : Target} {d : UInt32} :
    propertySize t d = 0 ↔ 2 ^ 32 - 8 - (t.addrSize - 1) ≤ d.toNat ∧ d.toNat ≤ 2 ^ 32 - 8 := by
  have hd : d.toNat < 2 ^ 32 := d.toNat_lt
  rw [← UInt32.toNat_inj]
  unfold propertySize alignUp alignDown Target.wordBits Target.addrSize sizeofProp
  cases t.lp64 <;>
    simp only [Bool.false_eq_true, if_false, if_true, UInt32.toNat_ofNat', UInt32.toNat_zero,
      Nat.reducePow] <;> omega

/-- The one record `Parse` reads data from, `GNU_PROPERTY_AARCH64_FEATURE_1_AND` with 4 bytes of
data, takes 16 bytes. -/
theorem toNat_propertySize_four {t : Target} (h : t.lp64 = true) :
    (propertySize t 4).toNat = 16 := by
  rw [toNat_propertySize (by decide), paddedRecordSize, Target.addrSize_of_lp64 h]
  rfl

/-! ### `Parse` -/

section Parse

variable {t : Target} {m : Mem} {note : ℕ} {nDescsz : UInt32} {s s' : ParseState}

theorem parseBody_loads (hlt : s.offset < nDescsz) :
    ∃ new, (parseBody t m note nDescsz s).1.loads = s.loads ++ new ∧
      LoadsIn (note + sizeofNhdrGNUProperty) (note + sizeofNhdrGNUProperty + nDescsz.toNat) new := by
  have hltN := UInt32.lt_iff_toNat_lt.mp hlt
  have hroom := UInt32.toNat_sub_of_le _ _ (UInt32.le_iff_toNat_le.mpr hltN.le)
  unfold parseBody
  dsimp only
  split_ifs with h8 hsize hcase h4
  · exact ⟨[], by simp, by simp [LoadsIn]⟩
  · refine ⟨[propertyAddr note s.offset + 4], rfl, ?_⟩
    simp only [sizeofProp] at h8
    simp [LoadsIn, propertyAddr, sizeofNhdrGNUProperty]
    omega
  · refine ⟨[propertyAddr note s.offset + 4, propertyAddr note s.offset], by simp, ?_⟩
    simp only [sizeofProp] at h8
    simp [LoadsIn, propertyAddr, sizeofNhdrGNUProperty]
    omega
  · -- the flags word: the record has 4 bytes of data and passed the size check for 16 bytes
    have h16 := toNat_propertySize_four (t.lp64_of_aarch64 hcase.1)
    rw [not_not.mp h4, UInt32.lt_iff_toNat_lt, h16] at hsize
    refine ⟨[propertyAddr note s.offset + 4, propertyAddr note s.offset,
      propertyAddr note s.offset + 8], by simp, ?_⟩
    simp only [sizeofProp] at h8
    simp [LoadsIn, propertyAddr, sizeofNhdrGNUProperty]
    omega
  · refine ⟨[propertyAddr note s.offset + 4, propertyAddr note s.offset], by simp, ?_⟩
    simp only [sizeofProp] at h8
    simp [LoadsIn, propertyAddr, sizeofNhdrGNUProperty]
    omega

/-- A pass that goes on has passed both size checks, and moves the offset by `property_size`
without wrapping. -/
theorem parseBody_continue (hlt : s.offset < nDescsz)
    (h : parseBody t m note nDescsz s = (s', none)) :
    sizeofProp ≤ nDescsz.toNat - s.offset.toNat ∧
      (propertySize t (load32 m (propertyAddr note s.offset + 4))).toNat ≤
        nDescsz.toNat - s.offset.toNat ∧
      s'.offset.toNat =
        s.offset.toNat + (propertySize t (load32 m (propertyAddr note s.offset + 4))).toNat := by
  have hltN := UInt32.lt_iff_toNat_lt.mp hlt
  have hroom := UInt32.toNat_sub_of_le _ _ (UInt32.le_iff_toNat_le.mpr hltN.le)
  unfold parseBody at h
  dsimp only at h
  -- the passes that return are not passes that go on
  split_ifs at h with h8 hsize hcase h4
  · cases h
  · cases h
  · cases h
  all_goals
    obtain rfl := (Prod.mk.inj h).1
    rw [UInt32.lt_iff_toNat_lt, hroom] at hsize
    rw [hroom] at h8
    simp only [sizeofProp] at h8 ⊢
    refine ⟨by omega, by omega, ?_⟩
    have hn : nDescsz.toNat < 2 ^ 32 := nDescsz.toNat_lt
    rw [UInt32.toNat_add, Nat.mod_eq_of_lt (by omega)]

/-- A record of size `0` that passes the header check, outside the aarch64 property case, leaves
the offset where it was and the loop going. -/
theorem parseBody_of_propertySize_eq_zero (hroom : sizeofProp ≤ (nDescsz - s.offset).toNat)
    (hzero : propertySize t (load32 m (propertyAddr note s.offset + 4)) = 0)
    (hcase : t.aarch64 = true →
      load32 m (propertyAddr note s.offset) ≠ gnuPropertyAarch64Feature1And) :
    (parseBody t m note nDescsz s).1.offset = s.offset ∧ (parseBody t m note nDescsz s).2 = none := by
  unfold parseBody
  dsimp only
  rw [if_neg (by omega), hzero, if_neg (by simp [UInt32.lt_iff_toNat_lt]),
    if_neg (fun h ↦ hcase h.1 h.2)]
  simp

theorem parseLoop_of_propertySize_eq_zero (hlt : s.offset < nDescsz)
    (hroom : sizeofProp ≤ (nDescsz - s.offset).toNat)
    (hzero : propertySize t (load32 m (propertyAddr note s.offset + 4)) = 0)
    (hcase : t.aarch64 = true →
      load32 m (propertyAddr note s.offset) ≠ gnuPropertyAarch64Feature1And)
    (fuel : ℕ) : (parseLoop t m note nDescsz fuel s).2 = none := by
  -- induction on the fuel; each pass keeps the offset, and every hypothesis is about the offset
  induction fuel generalizing s with
  | zero => rfl
  | succ fuel ih =>
    obtain ⟨hoff, hnone⟩ := parseBody_of_propertySize_eq_zero hroom hzero hcase
    rw [parseLoop, if_pos hlt]
    rcases hb : parseBody t m note nDescsz s with ⟨s', _ | ok⟩
    · rw [hb] at hoff
      exact ih (hoff ▸ hlt) (hoff ▸ hroom) (hoff ▸ hzero) (hoff ▸ hcase)
    · rw [hb] at hnone
      cases hnone

theorem parseLoop_loads {lo hi : ℕ} (hlo : lo ≤ note + sizeofNhdrGNUProperty)
    (hhi : note + sizeofNhdrGNUProperty + nDescsz.toNat ≤ hi) (fuel : ℕ)
    (hs : LoadsIn lo hi s.loads) : LoadsIn lo hi (parseLoop t m note nDescsz fuel s).1.loads := by
  -- induction on the fuel, with the loads so far inside as the invariant
  induction fuel generalizing s with
  | zero => exact hs
  | succ fuel ih =>
    rw [parseLoop]
    split_ifs with hlt
    · obtain ⟨new, hnew, hin⟩ : ∃ new, (parseBody t m note nDescsz s).1.loads = s.loads ++ new ∧
          LoadsIn (note + sizeofNhdrGNUProperty) (note + sizeofNhdrGNUProperty + nDescsz.toNat) new :=
        parseBody_loads hlt
      have hs' : LoadsIn lo hi (parseBody t m note nDescsz s).1.loads := by
        rw [hnew, loadsIn_append]
        exact ⟨hs, hin.mono hlo hhi⟩
      rcases hb : parseBody t m note nDescsz s with ⟨s', _ | ok⟩
      · rw [hb] at hs'
        exact ih hs'
      · rw [hb] at hs'
        exact hs'
    · exact hs

/-- When the record at the offset of every state the loop reaches is at most `2^32 - 16` bytes of
data, `Parse` returns: every pass that goes on moves the offset forward by at least a record
header, so `n_descsz - offset + 1` passes suffice. -/
theorem parseLoop_returns
    (hsmall : ∀ k, (parseLoop t m note nDescsz k s).2 = none →
      (parseLoop t m note nDescsz k s).1.offset < nDescsz →
      (load32 m (propertyAddr note (parseLoop t m note nDescsz k s).1.offset + 4)).toNat + 16 ≤
        2 ^ 32)
    (fuel : ℕ) (hfuel : nDescsz.toNat - s.offset.toNat < fuel) :
    (parseLoop t m note nDescsz fuel s).2.isSome := by
  -- induction on the fuel; `n_descsz - offset` falls at every pass that goes on
  induction fuel generalizing s with
  | zero => omega
  | succ fuel ih =>
    rw [parseLoop]
    split_ifs with hlt
    · rcases hb : parseBody t m note nDescsz s with ⟨s', _ | ok⟩
      · obtain ⟨-, hsize, hoff⟩ := parseBody_continue hlt hb
        have hd : (load32 m (propertyAddr note s.offset + 4)).toNat + 16 ≤ 2 ^ 32 := hsmall 0 rfl hlt
        have hstep := sizeofProp_le_paddedRecordSize t (load32 m (propertyAddr note s.offset + 4)).toNat
        rw [toNat_propertySize hd] at hsize hoff
        simp only [sizeofProp] at hstep
        -- the states reached from `s'` are those reached from `s` one pass later
        have hnext : ∀ k, parseLoop t m note nDescsz (k + 1) s = parseLoop t m note nDescsz k s' :=
          fun k ↦ by rw [parseLoop, if_pos hlt, hb]
        refine ih (fun k ↦ ?_) (by omega)
        rw [← hnext k]
        exact hsmall (k + 1)
      · rfl
    · rfl

/-- **A record is accepted only if it fits**: a pass of the loop that goes on past a record whose
`pr_datasz` is at most `2^32 - 16` has found the record's header and data, rounded up to
`sizeof(ElfW(Addr))`, inside what was left of the descriptor, and moves the offset to its end. -/
theorem parseBody_record_fits (hlt : s.offset < nDescsz)
    (h : parseBody t m note nDescsz s = (s', none))
    (hd : (load32 m (propertyAddr note s.offset + 4)).toNat + 16 ≤ 2 ^ 32) :
    s.offset.toNat + paddedRecordSize t (load32 m (propertyAddr note s.offset + 4)).toNat ≤
        nDescsz.toNat ∧
      s'.offset.toNat =
        s.offset.toNat + paddedRecordSize t (load32 m (propertyAddr note s.offset + 4)).toNat := by
  have hltN := UInt32.lt_iff_toNat_lt.mp hlt
  obtain ⟨-, hsize, hoff⟩ := parseBody_continue hlt h
  rw [toNat_propertySize hd] at hsize hoff
  exact ⟨by omega, hoff⟩

theorem parseBody_record_fits_bti :
    (0 : UInt32).toNat + paddedRecordSize aarch64 (load32 (noteMem btiNote) (propertyAddr 0 0 + 4)).toNat ≤
        (16 : UInt32).toNat ∧
      (parseBody aarch64 (noteMem btiNote) 0 16 ⟨0, false, []⟩).1.offset.toNat =
        (0 : UInt32).toNat +
          paddedRecordSize aarch64 (load32 (noteMem btiNote) (propertyAddr 0 0 + 4)).toNat :=
  parseBody_record_fits (s := ⟨0, false, []⟩) (by decide) (Prod.ext rfl (by decide)) (by decide)

end Parse

/-! ### The constructor -/

/-- The first `PT_GNU_PROPERTY` entry of the table. -/
def firstGnuProperty (phdrs : List Phdr) : Option Phdr := phdrs.find? (·.pType == ptGnuProperty)

section Constructor

variable {t : Target} {m : Mem} {loadBias : ℕ}

/-- `FindSegment` returns the first `PT_GNU_PROPERTY` entry, and only when its segment holds the
note header and the descriptor. -/
theorem findSegment_eq_some {phdrs : List Phdr} {p : Phdr}
    (h : (findSegment m loadBias phdrs).1 = some p) :
    firstGnuProperty phdrs = some p ∧
      sizeofNhdrGNUProperty + (load32 m (loadBias + p.pVaddr + 4)).toNat ≤ p.pMemsz := by
  induction phdrs with
  | nil => cases h
  | cons q phdrs ih =>
    unfold findSegment at h
    by_cases hq : q.pType = ptGnuProperty
    · have hfirst : firstGnuProperty (q :: phdrs) = some q := by
        simp [firstGnuProperty, hq]
      simp only [hq, ne_eq, not_true_eq_false, if_false] at h
      split_ifs at h with hsmall hdesc
      obtain rfl := Option.some.inj h
      exact ⟨hfirst, by omega⟩
    · have hfirst : firstGnuProperty (q :: phdrs) = firstGnuProperty phdrs := by
        simp [firstGnuProperty, hq]
      rw [if_pos hq] at h
      rw [hfirst]
      exact ih h

theorem findSegment_loads (m : Mem) (loadBias : ℕ) (phdrs : List Phdr) :
    ∀ a ∈ (findSegment m loadBias phdrs).2, ∃ p ∈ firstGnuProperty phdrs,
      loadBias + p.pVaddr ≤ a ∧ a + 4 ≤ loadBias + p.pVaddr + p.pMemsz := by
  induction phdrs with
  | nil => simp [findSegment]
  | cons q phdrs ih =>
    unfold findSegment
    by_cases hq : q.pType = ptGnuProperty
    · have hfirst : firstGnuProperty (q :: phdrs) = some q := by
        simp [firstGnuProperty, hq]
      rw [hfirst]
      simp only [hq, ne_eq, not_true_eq_false, if_false]
      intro a ha
      by_cases hsmall : q.pMemsz < sizeofNhdrGNUProperty
      · simp [hsmall] at ha
      -- the one load is `n_descsz`, inside a segment that holds the header
      · have hload : a = loadBias + q.pVaddr + 4 := by
          rw [if_neg hsmall, apply_ite Prod.snd] at ha
          split_ifs at ha <;> simpa using ha
        unfold sizeofNhdrGNUProperty at hsmall
        exact ⟨q, rfl, by omega, by omega⟩
    · have hfirst : firstGnuProperty (q :: phdrs) = firstGnuProperty phdrs := by
        simp [firstGnuProperty, hq]
      rw [if_pos hq, hfirst]
      exact ih

theorem sanityCheck_loads (note : ℕ) :
    LoadsIn note (note + sizeofNhdrGNUProperty) (sanityCheck m note).2 := by
  unfold sanityCheck
  split_ifs <;> simp [LoadsIn, sizeofNhdrGNUProperty]

/-- **Every load lies inside the first `PT_GNU_PROPERTY` segment**: on every target, for every
table and memory, after any number of passes of `Parse`'s loop, every word the constructor has
loaded lies in `[load_bias + p_vaddr, load_bias + p_vaddr + p_memsz)` of that entry. -/
theorem gnuPropertySection_loads_inside (t : Target) (m : Mem) (loadBias : ℕ) (phdrs : List Phdr)
    (fuel : ℕ) :
    ∀ a ∈ (gnuPropertySection t m loadBias phdrs fuel).1.loads, ∃ p ∈ firstGnuProperty phdrs,
      loadBias + p.pVaddr ≤ a ∧ a + 4 ≤ loadBias + p.pVaddr + p.pMemsz := by
  unfold gnuPropertySection
  rcases hf : findSegment m loadBias phdrs with ⟨_ | p, loads⟩ <;> dsimp only
  · simpa [hf] using findSegment_loads m loadBias phdrs
  · -- the note was found: every load lies in its segment
    obtain ⟨hfirst, hdesc⟩ := findSegment_eq_some (congrArg Prod.fst hf)
    have hseg : ∀ loads', LoadsIn (loadBias + p.pVaddr) (loadBias + p.pVaddr + p.pMemsz) loads' →
        ∀ a ∈ loads', ∃ q ∈ firstGnuProperty phdrs,
          loadBias + q.pVaddr ≤ a ∧ a + 4 ≤ loadBias + q.pVaddr + q.pMemsz :=
      fun loads' hin a ha ↦ ⟨p, hfirst, hin a ha⟩
    have hfind : LoadsIn (loadBias + p.pVaddr) (loadBias + p.pVaddr + p.pMemsz) loads := by
      intro a ha
      obtain ⟨q, hq, hin⟩ := findSegment_loads m loadBias phdrs a
        (by rw [hf]; exact ha)
      rw [hfirst, Option.mem_def, Option.some.injEq] at hq
      exact hq ▸ hin
    have hsane := (sanityCheck_loads (m := m) (loadBias + p.pVaddr)).mono le_rfl
      (show loadBias + p.pVaddr + sizeofNhdrGNUProperty ≤ loadBias + p.pVaddr + p.pMemsz by omega)
    rcases hs : sanityCheck m (loadBias + p.pVaddr) with ⟨_ | _, loads'⟩ <;> rw [hs] at hsane <;>
      dsimp only <;> apply hseg
    · exact loadsIn_append.mpr ⟨hfind, hsane⟩
    · exact parseLoop_loads (by omega) (by omega) fuel (loadsIn_append.mpr ⟨hfind, hsane⟩)

/-- **The constructor never returns on a record of size `0`**: when the first `PT_GNU_PROPERTY`
entry passes `FindSegment` and `SanityCheck`, the descriptor holds a record header, and the first
record's `property_size` is `0` (outside the aarch64 property case), no number of passes of
`Parse`'s loop ends the constructor. -/
theorem gnuPropertySection_never_returns (t : Target) (m : Mem) (loadBias : ℕ) (phdrs : List Phdr)
    (p : Phdr) (hfind : (findSegment m loadBias phdrs).1 = some p)
    (hsane : (sanityCheck m (loadBias + p.pVaddr)).1 = true)
    (hroom : sizeofProp ≤ (load32 m (loadBias + p.pVaddr + 4)).toNat)
    (hzero : propertySize t (load32 m (propertyAddr (loadBias + p.pVaddr) 0 + 4)) = 0)
    (hcase : t.aarch64 = true →
      load32 m (propertyAddr (loadBias + p.pVaddr) 0) ≠ gnuPropertyAarch64Feature1And)
    (fuel : ℕ) : (gnuPropertySection t m loadBias phdrs fuel).2 = false := by
  obtain ⟨loads, hf⟩ : ∃ loads, findSegment m loadBias phdrs = (some p, loads) :=
    ⟨_, Prod.ext hfind rfl⟩
  obtain ⟨loads', hs⟩ : ∃ loads', sanityCheck m (loadBias + p.pVaddr) = (true, loads') :=
    ⟨_, Prod.ext hsane rfl⟩
  have hlt : (0 : UInt32) < load32 m (loadBias + p.pVaddr + 4) := by
    rw [UInt32.lt_iff_toNat_lt]
    simp only [sizeofProp] at hroom
    simp only [UInt32.toNat_zero]
    omega
  have hloop := parseLoop_of_propertySize_eq_zero (t := t) (s := ⟨0, false, loads ++ loads'⟩) hlt
    (by simpa using hroom) hzero hcase fuel
  simp only [gnuPropertySection, hf, hs, hloop, Option.isSome_none]

theorem gnuPropertySection_never_returns_hugeRecord :
    (gnuPropertySection aarch64 (noteMem hugeRecordNote) 0 [gnuPropertyPhdr 24] (2 ^ 32)).2 =
      false :=
  gnuPropertySection_never_returns aarch64 _ 0 _ (gnuPropertyPhdr 24) (by decide) (by decide)
    (by decide) (by decide) (by decide) _

/-- The size `0` of the failing record is not a matter of the target. -/
example : propertySize ilp32 0xfffffff8 = 0 ∧ propertySize aarch64 0xfffffff8 = 0 := by decide

/-- Just above that range, on LP64, a record of nearly `2^32` bytes of data takes 8. -/
example : propertySize aarch64 0xffffffff = 8 := by decide

/-- When every record the constructor reaches has at most `2^32 - 16` bytes of data, it returns
within `2^32` passes; every pass that goes on past such a record moves the offset forward by at
least a record header. -/
theorem gnuPropertySection_returns (t : Target) (m : Mem) (loadBias : ℕ) (phdrs : List Phdr)
    (hsmall : ∀ p ∈ firstGnuProperty phdrs, ∀ k,
      (gnuPropertySection t m loadBias phdrs k).2 = false →
      (gnuPropertySection t m loadBias phdrs k).1.offset < load32 m (loadBias + p.pVaddr + 4) →
      (load32 m (propertyAddr (loadBias + p.pVaddr)
        (gnuPropertySection t m loadBias phdrs k).1.offset + 4)).toNat + 16 ≤ 2 ^ 32) :
    (gnuPropertySection t m loadBias phdrs (2 ^ 32)).2 = true ∧
      ∀ (note : ℕ) (nDescsz : UInt32) (s s' : ParseState), s.offset < nDescsz →
        parseBody t m note nDescsz s = (s', none) →
        (load32 m (propertyAddr note s.offset + 4)).toNat + 16 ≤ 2 ^ 32 →
        s.offset.toNat + sizeofProp ≤ s'.offset.toNat := by
  refine ⟨?_, fun note nDescsz s s' hlt hb hd ↦ ?_⟩
  · rcases hf : findSegment m loadBias phdrs with ⟨_ | p, loads⟩
    · simp only [gnuPropertySection, hf]
    have hfirst := (findSegment_eq_some (congrArg Prod.fst hf)).1
    rcases hs : sanityCheck m (loadBias + p.pVaddr) with ⟨_ | _, loads'⟩
    · simp only [gnuPropertySection, hf, hs]
    -- past the checks, the constructor is `Parse`'s loop from offset `0`
    have hsec : ∀ k, gnuPropertySection t m loadBias phdrs k =
        ((parseLoop t m (loadBias + p.pVaddr) (load32 m (loadBias + p.pVaddr + 4)) k
            ⟨0, false, loads ++ loads'⟩).1,
          (parseLoop t m (loadBias + p.pVaddr) (load32 m (loadBias + p.pVaddr + 4)) k
            ⟨0, false, loads ++ loads'⟩).2.isSome) :=
      fun k ↦ by simp only [gnuPropertySection, hf, hs]
    have hn := (load32 m (loadBias + p.pVaddr + 4)).toNat_lt
    rw [hsec]
    refine parseLoop_returns (fun k hnone hlt ↦ ?_) _ (by simpa using hn)
    have h := hsmall p hfirst k
    rw [hsec k] at h
    exact h (by rw [hnone]; rfl) hlt
  · have hfits := parseBody_record_fits hlt hb hd
    have hstep := sizeofProp_le_paddedRecordSize t (load32 m (propertyAddr note s.offset + 4)).toNat
    omega

theorem gnuPropertySection_returns_bti :
    (∀ p ∈ firstGnuProperty [gnuPropertyPhdr 32], ∀ k,
        (gnuPropertySection aarch64 (noteMem btiNote) 0 [gnuPropertyPhdr 32] k).2 = false →
        (gnuPropertySection aarch64 (noteMem btiNote) 0 [gnuPropertyPhdr 32] k).1.offset <
          load32 (noteMem btiNote) (0 + p.pVaddr + 4) →
        (load32 (noteMem btiNote) (propertyAddr (0 + p.pVaddr)
          (gnuPropertySection aarch64 (noteMem btiNote) 0 [gnuPropertyPhdr 32] k).1.offset +
            4)).toNat + 16 ≤ 2 ^ 32) ∧
      (gnuPropertySection aarch64 (noteMem btiNote) 0 [gnuPropertyPhdr 32] (2 ^ 32)).2 = true ∧
      ∀ (note : ℕ) (nDescsz : UInt32) (s s' : ParseState), s.offset < nDescsz →
        parseBody aarch64 (noteMem btiNote) note nDescsz s = (s', none) →
        (load32 (noteMem btiNote) (propertyAddr note s.offset + 4)).toNat + 16 ≤ 2 ^ 32 →
        s.offset.toNat + sizeofProp ≤ s'.offset.toNat := by
  -- the first pass reads the one record; the second finds the end of the descriptor
  have hsmall : ∀ p ∈ firstGnuProperty [gnuPropertyPhdr 32], ∀ k,
      (gnuPropertySection aarch64 (noteMem btiNote) 0 [gnuPropertyPhdr 32] k).2 = false →
      (gnuPropertySection aarch64 (noteMem btiNote) 0 [gnuPropertyPhdr 32] k).1.offset <
        load32 (noteMem btiNote) (0 + p.pVaddr + 4) →
      (load32 (noteMem btiNote) (propertyAddr (0 + p.pVaddr)
        (gnuPropertySection aarch64 (noteMem btiNote) 0 [gnuPropertyPhdr 32] k).1.offset +
          4)).toNat + 16 ≤ 2 ^ 32 := by
    intro p hp k hnone hlt
    have hphdr : firstGnuProperty [gnuPropertyPhdr 32] = some (gnuPropertyPhdr 32) := by decide
    rw [hphdr] at hp
    obtain rfl := Option.some_inj.mp (Option.mem_def.mp hp)
    rcases k with _ | _ | k
    · decide
    · exact absurd hlt (by decide)
    · have hret : (gnuPropertySection aarch64 (noteMem btiNote) 0 [gnuPropertyPhdr 32] (k + 2)).2 =
          true := rfl
      rw [hret] at hnone
      cases hnone
  exact ⟨hsmall, gnuPropertySection_returns aarch64 _ 0 _ hsmall⟩

end Constructor

end Bionic.Linker.GnuProperty
