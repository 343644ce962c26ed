import Bionic.Lib.ByteMemory
import Bionic.Linker.ReservePadding

/-!
# `__get_elf_note` and `ReadPadSegmentNote`

`__get_elf_note` (elf_note.cpp) scans a `PT_NOTE` segment mapped at `note_addr` for a note of a
type and owner name: each record is a 12-byte `ElfW(Nhdr)`, then the name and the descriptor, each
padded to 4 bytes. `__find_elf_note` tries the segments of a program header table in turn, and the
linker's `ElfReader::ReadPadSegmentNote` (linker_phdr.cpp) maps each `PT_NOTE` of the file and
looks there for the `NT_ANDROID_TYPE_PAD_SEGMENT` note of owner `"Android"`.

Addresses are numbers below `2 ^ w`, `w` the width of `uintptr_t`; every sum the code makes on an
`ElfW(Addr)` is taken modulo `2 ^ w`, and `align_up` is `ReservePadding.alignUp`. Memory is a byte
memory `Mem`. The scan records each load as an address and a length: the header of every record
it looks at, and the owner name, of which `strncmp` reads at most `strlen(note_name) + 1` bytes.
The loop runs on fuel, and its `Outcome` is `scanning` while it has not returned.

When no address sum can wrap (`noteEnd + 2 ^ 34 ≤ 2 ^ w`, as on LP64), the scan returns within
`p_memsz / 12 + 1` records. It returns the first well-formed record of the note's type when that
record's owner is the name, and `false` otherwise (`getElfNote_eq_firstOfType`). Every load lies in
the segment (`getElfNoteLoop_loads_inside`).

So a record of the right type with another owner ends the search: a `PT_NOTE` segment holding a
`"GNU"` note of type 5 (`NT_GNU_PROPERTY_TYPE_0`) before the `"Android"` note of type 5
(`NT_ANDROID_TYPE_PAD_SEGMENT`) hides the latter (`getElfNote_stops_at_other_owner`). On ILP32 the
padded sizes wrap: a header whose sizes add up to `2 ^ 32` sends the scan back to itself for ever
(`getElfNoteLoop_never_returns_of_wrap`). `ReadPadSegmentNote` checks `p_offset + p_filesz`
against the file size but scans `p_memsz` bytes: with `p_filesz` below `p_memsz` the first header
is read past the end of the file (`readPadSegmentNote_loads_past_file`).
-/

set_option autoImplicit false
set_option relaxedAutoImplicit false

namespace Bionic.Linker.ElfNote

open Bionic.Lib.ByteMemory
open Bionic.Linker.ReservePadding (alignUp alignDown)

/-! ### The model -/

/-- `ElfW(Phdr)`, the fields the note readers use. -/
structure Phdr where
  pType : UInt32
  pOffset : ℕ
  pVaddr : ℕ
  pFilesz : ℕ
  pMemsz : ℕ
  deriving DecidableEq, Repr

def ptNote : UInt32 := 4

/-- `sizeof(ElfW(Nhdr))`: `n_namesz`, `n_descsz` and `n_type`. -/
def sizeofNhdr : ℕ := 12

def ntAndroidTypeMemtag : UInt32 := 4

def ntAndroidTypePadSegment : UInt32 := 5

/-- The owner name `"Android"`, without its NUL. -/
def androidName : List UInt8 := [0x41, 0x6e, 0x64, 0x72, 0x6f, 0x69, 0x64]

/-- A load: an address and a length in bytes. -/
abbrev Load := ℕ × ℕ

/-- Where `__get_elf_note` stands: still scanning, returned `false`, or returned `true` with
`*note_hdr` and `*note_desc`. -/
inductive Outcome
  | scanning
  | notFound
  | found (hdr desc : ℕ)
  deriving DecidableEq, Repr

/-- The record's name, after its header. -/
def nameAddr (w p : ℕ) : ℕ := (p + sizeofNhdr) % 2 ^ w

/-- The record's descriptor: `p += align_up(note->n_namesz, 4)`. -/
def descAddr (w : ℕ) (m : Mem) (p : ℕ) : ℕ := (nameAddr w p + alignUp w (load32 m p).toNat 4) % 2 ^ w

/-- The next record: `p += align_up(note->n_descsz, 4)`. -/
def nextNote (w : ℕ) (m : Mem) (p : ℕ) : ℕ :=
  (descAddr w m p + alignUp w (load32 m (p + 4)).toNat 4) % 2 ^ w

/-- The loop of `__get_elf_note` from the record at `p`, after at most `fuel` records, with the
loads made. -/
def getElfNoteLoop (w : ℕ) (m : Mem) (noteType : UInt32) (noteName : List UInt8) (noteEnd : ℕ) :
    ℕ → ℕ → List Load → Outcome × List Load
  | 0, _, loads => (.scanning, loads)
  | fuel + 1, p, loads =>
    if nameAddr w p ≤ noteEnd then
      let loads := loads ++ [(p, sizeofNhdr)]
      if noteEnd < nextNote w m p then (.notFound, loads)
      else if load32 m (p + 8) ≠ noteType then
        getElfNoteLoop w m noteType noteName noteEnd fuel (nextNote w m p) loads
      -- a record of the type whose name differs ends the search
      else if (load32 m p).toNat ≠ noteName.length + 1 then (.notFound, loads)
      else
        let loads := loads ++ [(nameAddr w p, noteName.length + 1)]
        if window m (nameAddr w p) (noteName.length + 1) ≠ noteName ++ [0] then (.notFound, loads)
        else (.found p (descAddr w m p), loads)
    else (.notFound, loads)

/-- `__get_elf_note(note_type, note_name, note_addr, phdr_note, ...)`, `note_name` a C string
without its NUL (never null here). -/
def getElfNote (w : ℕ) (m : Mem) (noteType : UInt32) (noteName : List UInt8) (noteAddr : ℕ)
    (phdrNote : Phdr) (fuel : ℕ) : Outcome × List Load :=
  if phdrNote.pType ≠ ptNote ∨ noteAddr = 0 then (.notFound, [])
  else getElfNoteLoop w m noteType noteName ((noteAddr + phdrNote.pMemsz) % 2 ^ w) fuel noteAddr []

/-- `__find_elf_note`: the segments in turn, each at `load_bias + p_vaddr`, until one has the
note. -/
def findElfNote (w : ℕ) (m : Mem) (noteType : UInt32) (noteName : List UInt8) (loadBias fuel : ℕ) :
    List Phdr → Outcome × List Load
  | [] => (.notFound, [])
  | phdr :: phdrs =>
    match getElfNote w m noteType noteName ((loadBias + phdr.pVaddr) % 2 ^ w) phdr fuel with
    | (.notFound, loads) =>
      let r := findElfNote w m noteType noteName loadBias fuel phdrs
      (r.1, loads ++ r.2)
    | r => r

/-- The fields of `ElfReader` that `ReadPadSegmentNote` reads. -/
structure ElfReader where
  fileOffset : ℕ
  fileSize : ℕ
  phdrTable : List Phdr
  deriving DecidableEq, Repr

/-- What `ReadPadSegmentNote` leaves: its result (`none` while a scan has not returned),
`should_pad_segments_` if it was written, and the loads of the scans as offsets in the file. -/
structure PadSegmentNote where
  result : Option Bool
  shouldPadSegments : Option Bool
  fileLoads : List (ℤ × ℕ)
  deriving DecidableEq, Repr

/-- The loop of `ReadPadSegmentNote` from the entry of index `i`. `mapData i` is where the
`PT_NOTE` of index `i` is mapped (`note_fragment.data()`, the byte at file offset
`file_offset_ + p_offset`), `none` when the `mmap` fails; the mapping shows the file's bytes. -/
def readPadSegmentNoteFrom (w : ℕ) (file : Mem) (fileOffset fileSize : ℕ)
    (mapData : ℕ → Option ℕ) (fuel : ℕ) : ℕ → List Phdr → PadSegmentNote
  | _, [] => ⟨some true, none, []⟩
  | i, phdr :: phdrs =>
    if phdr.pType ≠ ptNote then readPadSegmentNoteFrom w file fileOffset fileSize mapData fuel (i + 1) phdrs
    else if phdr.pMemsz = 0 then readPadSegmentNoteFrom w file fileOffset fileSize mapData fuel (i + 1) phdrs
    -- only the file part of the segment is checked against the file
    else if fileSize < fileOffset + phdr.pOffset + phdr.pFilesz then
      readPadSegmentNoteFrom w file fileOffset fileSize mapData fuel (i + 1) phdrs
    else
      match mapData i with
      | none => ⟨some false, none, []⟩
      | some data =>
        let start := fileOffset + phdr.pOffset
        let m : Mem := fun a ↦ file (start + (a - data))
        let toFile : Load → ℤ × ℕ := fun l ↦ ((start : ℤ) + ((l.1 : ℤ) - data), l.2)
        match getElfNote w m ntAndroidTypePadSegment androidName data phdr fuel with
        | (.scanning, loads) => ⟨none, none, loads.map toFile⟩
        | (.notFound, loads) =>
          let r := readPadSegmentNoteFrom w file fileOffset fileSize mapData fuel (i + 1) phdrs
          ⟨r.result, r.shouldPadSegments, loads.map toFile ++ r.fileLoads⟩
        | (.found hdr desc, loads) =>
          if load32 m (hdr + 4) ≠ 4 then ⟨some false, none, loads.map toFile⟩
          else ⟨some true, some (load32 m desc == 1), (loads ++ [(desc, 4)]).map toFile⟩

/-- `ElfReader::ReadPadSegmentNote`. -/
def readPadSegmentNote (w : ℕ) (file : Mem) (r : ElfReader) (mapData : ℕ → Option ℕ)
    (fuel : ℕ) : PadSegmentNote :=
  readPadSegmentNoteFrom w file r.fileOffset r.fileSize mapData fuel 0 r.phdrTable

/-! ### The records of a note, with no wrapping -/

/-- `align_up(x, 4)` with no wrapping. -/
def align4 (x : ℕ) : ℕ := (x + 3) / 4 * 4

/-- The end of the record at `p`: its header, then its name and its descriptor each padded to 4
bytes. -/
def recordEnd (m : Mem) (p : ℕ) : ℕ :=
  p + sizeofNhdr + align4 (load32 m p).toNat + align4 (load32 m (p + 4)).toNat

theorem le_recordEnd (m : Mem) (p : ℕ) : p + sizeofNhdr ≤ recordEnd m p := by
  unfold recordEnd
  omega

/-- The well-formed records from `p` on, by the addresses of their headers: each lies before
`noteEnd`, and the list stops at the first record that does not. -/
def noteRecords (m : Mem) (noteEnd p : ℕ) : List ℕ :=
  if _h : recordEnd m p ≤ noteEnd then p :: noteRecords m noteEnd (recordEnd m p) else []
termination_by noteEnd - p
decreasing_by
  have := le_recordEnd m p
  simp only [sizeofNhdr] at this
  omega

/-- The record at `h` is owned by `noteName`: its `n_namesz` counts the name and its NUL, and its
name field holds them. -/
def ownerIs (m : Mem) (noteName : List UInt8) (h : ℕ) : Bool :=
  (load32 m h).toNat == noteName.length + 1 &&
    window m (h + sizeofNhdr) (noteName.length + 1) == noteName ++ [0]

/-- What the scan finds among `records`: the first of the type, if its owner is `noteName`. -/
def firstOfType (m : Mem) (noteType : UInt32) (noteName : List UInt8) (records : List ℕ) :
    Outcome :=
  match records.find? (fun h ↦ load32 m (h + 8) == noteType) with
  | none => .notFound
  | some h =>
    if ownerIs m noteName h then .found h (h + sizeofNhdr + align4 (load32 m h).toNat)
    else .notFound

/-- Every load lies in `[lo, hi)`. -/
def LoadsIn (lo hi : ℕ) (loads : List Load) : Prop := ∀ l ∈ loads, lo ≤ l.1 ∧ l.1 + l.2 ≤ hi

theorem loadsIn_append {lo hi : ℕ} {xs ys : List Load} :
    LoadsIn lo hi (xs ++ ys) ↔ LoadsIn lo hi xs ∧ LoadsIn lo hi ys :=
  List.forall_mem_append

theorem align4_le (x : ℕ) : align4 x ≤ x + 3 := by
  unfold align4
  omega

theorem le_align4 (x : ℕ) : x ≤ align4 x := by
  unfold align4
  omega

theorem alignUp_four_of_lt {w x : ℕ} (h : x + 3 < 2 ^ w) : alignUp w x 4 = align4 x := by
  unfold alignUp alignDown align4
  rw [Nat.mod_eq_of_lt (by omega)]
  omega

section Records

variable {w : ℕ} {m : Mem} {p : ℕ}

theorem recordEnd_lt_of_room (h : p + 2 ^ 34 ≤ 2 ^ w) : recordEnd m p < 2 ^ w := by
  have h₁ := (load32 m p).toNat_lt
  have h₂ := (load32 m (p + 4)).toNat_lt
  have h₃ := align4_le (load32 m p).toNat
  have h₄ := align4_le (load32 m (p + 4)).toNat
  unfold recordEnd sizeofNhdr
  omega

theorem nameAddr_of_lt (h : recordEnd m p < 2 ^ w) : nameAddr w p = p + sizeofNhdr := by
  have := le_recordEnd m p
  exact Nat.mod_eq_of_lt (by omega)

theorem descAddr_of_lt (h : recordEnd m p < 2 ^ w) :
    descAddr w m p = p + sizeofNhdr + align4 (load32 m p).toNat := by
  have hname := le_align4 (load32 m p).toNat
  have h12 : sizeofNhdr = 12 := rfl
  unfold descAddr recordEnd at *
  rw [nameAddr_of_lt h, alignUp_four_of_lt (by omega), Nat.mod_eq_of_lt (by omega)]

theorem nextNote_of_lt (h : recordEnd m p < 2 ^ w) : nextNote w m p = recordEnd m p := by
  have hdesc := le_align4 (load32 m (p + 4)).toNat
  have h12 : sizeofNhdr = 12 := rfl
  unfold nextNote
  rw [descAddr_of_lt h]
  unfold recordEnd at *
  rw [alignUp_four_of_lt (by omega), Nat.mod_eq_of_lt (by omega)]

theorem noteRecords_of_fits {noteEnd : ℕ} (h : recordEnd m p ≤ noteEnd) :
    noteRecords m noteEnd p = p :: noteRecords m noteEnd (recordEnd m p) := by
  rw [noteRecords, dif_pos h]

theorem noteRecords_of_not_fits {noteEnd : ℕ} (h : ¬recordEnd m p ≤ noteEnd) :
    noteRecords m noteEnd p = [] := by
  rw [noteRecords, dif_neg h]

theorem ownerIs_eq_true_iff {noteName : List UInt8} :
    ownerIs m noteName p = true ↔ (load32 m p).toNat = noteName.length + 1 ∧
      window m (p + sizeofNhdr) (noteName.length + 1) = noteName ++ [0] := by
  simp [ownerIs]

theorem firstOfType_cons_of_ne {noteType : UInt32} {noteName : List UInt8} {records : List ℕ}
    (h : load32 m (p + 8) ≠ noteType) :
    firstOfType m noteType noteName (p :: records) = firstOfType m noteType noteName records := by
  simp [firstOfType, h]

theorem firstOfType_cons_of_eq {noteType : UInt32} {noteName : List UInt8} {records : List ℕ}
    (h : load32 m (p + 8) = noteType) :
    firstOfType m noteType noteName (p :: records) =
      if ownerIs m noteName p then .found p (p + sizeofNhdr + align4 (load32 m p).toNat)
      else .notFound := by
  simp [firstOfType, h]

end Records

/-! ### The scan -/

section Loop

variable {w : ℕ} {m : Mem} {noteType : UInt32} {noteName : List UInt8} {noteEnd p : ℕ}
  {loads : List Load}

/-- One record of the scan when its sums do not wrap and it lies before `noteEnd`: the branches of
the source with the addresses as plain sums. -/
theorem getElfNoteLoop_succ_of_fits (fuel : ℕ) (hlt : recordEnd m p < 2 ^ w)
    (hfits : recordEnd m p ≤ noteEnd) :
    getElfNoteLoop w m noteType noteName noteEnd (fuel + 1) p loads =
      if load32 m (p + 8) ≠ noteType then
        getElfNoteLoop w m noteType noteName noteEnd fuel (recordEnd m p) (loads ++ [(p, sizeofNhdr)])
      else if (load32 m p).toNat ≠ noteName.length + 1 then (.notFound, loads ++ [(p, sizeofNhdr)])
      else if window m (p + sizeofNhdr) (noteName.length + 1) ≠ noteName ++ [0] then
        (.notFound, loads ++ [(p, sizeofNhdr), (p + sizeofNhdr, noteName.length + 1)])
      else
        (.found p (p + sizeofNhdr + align4 (load32 m p).toNat),
          loads ++ [(p, sizeofNhdr), (p + sizeofNhdr, noteName.length + 1)]) := by
  have hle := le_recordEnd m p
  rw [getElfNoteLoop, nameAddr_of_lt hlt, nextNote_of_lt hlt, descAddr_of_lt hlt,
    if_pos (by omega), if_neg (by omega)]
  simp only [List.append_assoc, List.cons_append, List.nil_append]

/-- A record that does not fit before `noteEnd` ends the scan with `false`, after its header is
loaded if the header fits. -/
theorem getElfNoteLoop_succ_of_not_fits (fuel : ℕ) (hlt : recordEnd m p < 2 ^ w)
    (hend : ¬recordEnd m p ≤ noteEnd) :
    getElfNoteLoop w m noteType noteName noteEnd (fuel + 1) p loads =
      (.notFound, if p + sizeofNhdr ≤ noteEnd then loads ++ [(p, sizeofNhdr)] else loads) := by
  rw [getElfNoteLoop, nameAddr_of_lt hlt, nextNote_of_lt hlt]
  by_cases hhdr : p + sizeofNhdr ≤ noteEnd
  · rw [if_pos hhdr, if_pos hhdr, if_pos (by omega)]
  · rw [if_neg hhdr, if_neg hhdr]

/-- **What the scan computes when nothing wraps**: from a record at `p` before `noteEnd`, with
room above `noteEnd` and enough fuel, the scan returns `firstOfType` of the well-formed records
from `p`. -/
theorem getElfNoteLoop_eq_firstOfType (hroom : noteEnd + 2 ^ 34 ≤ 2 ^ w) (fuel : ℕ)
    (hp : p ≤ noteEnd) (hfuel : (noteEnd - p) / sizeofNhdr < fuel) :
    (getElfNoteLoop w m noteType noteName noteEnd fuel p loads).1 =
      firstOfType m noteType noteName (noteRecords m noteEnd p) := by
  -- induction on the fuel along the records; each record moves `p` by at least its header
  induction fuel generalizing p loads with
  | zero => exact absurd hfuel (Nat.not_lt_zero _)
  | succ fuel ih =>
    have hlt : recordEnd m p < 2 ^ w := recordEnd_lt_of_room (by omega)
    by_cases hfits : recordEnd m p ≤ noteEnd
    · rw [getElfNoteLoop_succ_of_fits fuel hlt hfits, noteRecords_of_fits hfits]
      by_cases htype : load32 m (p + 8) = noteType
      · rw [firstOfType_cons_of_eq htype, if_neg (not_not.mpr htype)]
        -- the record of the type: found exactly when its owner is the name
        by_cases hsz : (load32 m p).toNat = noteName.length + 1
        · by_cases hwin : window m (p + sizeofNhdr) (noteName.length + 1) = noteName ++ [0]
          · have howner : ownerIs m noteName p = true := ownerIs_eq_true_iff.mpr ⟨hsz, hwin⟩
            rw [if_neg (not_not.mpr hsz), if_neg (not_not.mpr hwin), if_pos howner]
          · have howner : ownerIs m noteName p = false := by
              rw [Bool.eq_false_iff, ne_eq, ownerIs_eq_true_iff]
              exact fun h ↦ hwin h.2
            rw [if_neg (not_not.mpr hsz), if_pos hwin, howner]
            rfl
        · have howner : ownerIs m noteName p = false := by
            rw [Bool.eq_false_iff, ne_eq, ownerIs_eq_true_iff]
            exact fun h ↦ hsz h.1
          rw [if_pos hsz, howner]
          rfl
      · have hle := le_recordEnd m p
        rw [firstOfType_cons_of_ne htype, if_pos htype]
        refine ih hfits ?_
        simp only [sizeofNhdr] at hfuel hle ⊢
        omega
    · rw [noteRecords_of_not_fits hfits, getElfNoteLoop_succ_of_not_fits fuel hlt hfits]
      rfl

/-- **Every load of the scan lies before `noteEnd`** and from `lo` on, when nothing wraps: the
headers it reads and the owner names it compares. -/
theorem getElfNoteLoop_loads_inside {lo : ℕ} (hroom : noteEnd + 2 ^ 34 ≤ 2 ^ w) (fuel : ℕ)
    (hlo : lo ≤ p) (hp : p ≤ noteEnd) (hloads : LoadsIn lo noteEnd loads) :
    LoadsIn lo noteEnd (getElfNoteLoop w m noteType noteName noteEnd fuel p loads).2 := by
  -- induction on the fuel, with the loads so far inside as the invariant
  induction fuel generalizing p loads with
  | zero => exact hloads
  | succ fuel ih =>
    have hlt : recordEnd m p < 2 ^ w := recordEnd_lt_of_room (by omega)
    have hle := le_recordEnd m p
    have h12 : sizeofNhdr = 12 := rfl
    have hhdr : p + sizeofNhdr ≤ noteEnd → LoadsIn lo noteEnd (loads ++ [(p, sizeofNhdr)]) :=
      fun h ↦ loadsIn_append.mpr ⟨hloads, by simp [LoadsIn]; omega⟩
    by_cases hfits : recordEnd m p ≤ noteEnd
    · rw [getElfNoteLoop_succ_of_fits fuel hlt hfits]
      split_ifs with htype hsz hwin
      · exact ih (by omega) hfits (hhdr (by omega))
      · exact hhdr (by omega)
      -- the name: `n_namesz` bytes inside the record
      all_goals
        have hname := le_align4 (load32 m p).toNat
        unfold recordEnd at hfits
        rw [List.append_cons, loadsIn_append]
        refine ⟨hhdr (by omega), ?_⟩
        simp only [LoadsIn, List.mem_singleton, forall_eq]
        omega
    · rw [getElfNoteLoop_succ_of_not_fits fuel hlt hfits]
      split_ifs with h
      · exact hhdr h
      · exact hloads

theorem getElfNoteLoop_extends_loads (fuel : ℕ) :
    loads <+: (getElfNoteLoop w m noteType noteName noteEnd fuel p loads).2 := by
  induction fuel generalizing p loads with
  | zero => exact List.prefix_refl _
  | succ fuel ih =>
    have hhdr : loads <+: loads ++ [(p, sizeofNhdr)] := List.prefix_append _ _
    rw [getElfNoteLoop]
    -- the branches of the source in order: past the end, another type, the name size, the name,
    -- found, and no room for a header
    split_ifs
    · exact hhdr
    · exact hhdr.trans ih
    · exact hhdr
    · exact hhdr.trans (List.prefix_append _ _)
    · exact hhdr.trans (List.prefix_append _ _)
    · exact List.prefix_refl _

theorem header_mem_getElfNoteLoop (fuel : ℕ) (hguard : nameAddr w p ≤ noteEnd) :
    (p, sizeofNhdr) ∈ (getElfNoteLoop w m noteType noteName noteEnd (fuel + 1) p loads).2 := by
  have hmem : (p, sizeofNhdr) ∈ loads ++ [(p, sizeofNhdr)] := by simp
  rw [getElfNoteLoop, if_pos hguard]
  split_ifs
  · exact hmem
  · exact (getElfNoteLoop_extends_loads fuel).subset hmem
  · exact hmem
  · exact List.mem_append_left _ hmem
  · exact List.mem_append_left _ hmem

/-- **A wrapping record sends the scan back to itself for ever**: when the record at `p` is not of
the type and its padded sizes bring `p` back to `p`, no amount of fuel ends the scan. -/
theorem getElfNoteLoop_never_returns_of_wrap (hguard : nameAddr w p ≤ noteEnd) (hp : p ≤ noteEnd)
    (hback : nextNote w m p = p) (htype : load32 m (p + 8) ≠ noteType) (fuel : ℕ) :
    (getElfNoteLoop w m noteType noteName noteEnd fuel p loads).1 = .scanning := by
  -- induction on the fuel; each pass comes back to the same record
  induction fuel generalizing loads with
  | zero => rfl
  | succ fuel ih =>
    rw [getElfNoteLoop, if_pos hguard, hback, if_neg (by omega), if_pos htype]
    exact ih

end Loop

/-! ### `__get_elf_note` -/

section GetElfNote

variable {w : ℕ} {m : Mem} {noteType : UInt32} {noteName : List UInt8} {noteAddr : ℕ}
  {phdr : Phdr}

/-- **What `__get_elf_note` computes when nothing wraps**: on a `PT_NOTE` at a non-null address,
with room above the segment and fuel past `p_memsz / 12`, it returns the first well-formed record
of the segment with the type when its owner is the name, and `false` otherwise. -/
theorem getElfNote_eq_firstOfType (hnote : phdr.pType = ptNote) (haddr : noteAddr ≠ 0)
    (hroom : noteAddr + phdr.pMemsz + 2 ^ 34 ≤ 2 ^ w) {fuel : ℕ}
    (hfuel : phdr.pMemsz / sizeofNhdr < fuel) :
    (getElfNote w m noteType noteName noteAddr phdr fuel).1 =
      firstOfType m noteType noteName (noteRecords m (noteAddr + phdr.pMemsz) noteAddr) := by
  unfold getElfNote
  rw [if_neg (by simp [hnote, haddr]), Nat.mod_eq_of_lt (by omega)]
  exact getElfNoteLoop_eq_firstOfType hroom fuel (by omega) (by simpa using hfuel)

theorem getElfNote_loads_inside (hroom : noteAddr + phdr.pMemsz + 2 ^ 34 ≤ 2 ^ w) (fuel : ℕ) :
    LoadsIn noteAddr (noteAddr + phdr.pMemsz) (getElfNote w m noteType noteName noteAddr phdr fuel).2 := by
  unfold getElfNote
  split_ifs
  · simp [LoadsIn]
  · rw [Nat.mod_eq_of_lt (by omega)]
    exact getElfNoteLoop_loads_inside (by omega) fuel le_rfl (by omega) (by simp [LoadsIn])

end GetElfNote

/-- A segment whose bytes are `bytes` from `base`, and a `PT_NOTE` entry of `size` bytes, all in
the file. -/
def noteAt (base : ℕ) (bytes : List UInt8) : Mem := fun a ↦ bytes.getD (a - base) 0

def notePhdr (size : ℕ) : Phdr := ⟨ptNote, 0, 0, size, size⟩

/-- A `PT_NOTE` segment as linkers lay it out: the `"GNU"` note of type 5
(`NT_GNU_PROPERTY_TYPE_0`, here with the aarch64 BTI property), then the `"Android"` note of type 5
(`NT_ANDROID_TYPE_PAD_SEGMENT`) with the value 1. -/
def gnuThenPadNote : List UInt8 :=
  [4, 0, 0, 0, 16, 0, 0, 0, 5, 0, 0, 0, 0x47, 0x4e, 0x55, 0,
    0, 0, 0, 0xc0, 4, 0, 0, 0, 1, 0, 0, 0, 0, 0, 0, 0,
    8, 0, 0, 0, 4, 0, 0, 0, 5, 0, 0, 0, 0x41, 0x6e, 0x64, 0x72, 0x6f, 0x69, 0x64, 0,
    1, 0, 0, 0]

/-- **A note of the type with another owner ends the search**: when the first record of the
segment fits, has the type asked for and another owner, `__get_elf_note` returns `false`, whatever
follows it. -/
theorem getElfNote_stops_at_other_owner (w : ℕ) (m : Mem) (noteType : UInt32)
    (noteName : List UInt8) (noteAddr : ℕ) (phdr : Phdr) (fuel : ℕ)
    (hnote : phdr.pType = ptNote) (haddr : noteAddr ≠ 0) (hroom : noteAddr + phdr.pMemsz < 2 ^ w)
    (hfits : recordEnd m noteAddr ≤ noteAddr + phdr.pMemsz)
    (htype : load32 m (noteAddr + 8) = noteType) (hother : ownerIs m noteName noteAddr = false) :
    (getElfNote w m noteType noteName noteAddr phdr (fuel + 1)).1 = .notFound := by
  have hother' : ¬((load32 m noteAddr).toNat = noteName.length + 1 ∧
      window m (noteAddr + sizeofNhdr) (noteName.length + 1) = noteName ++ [0]) := by
    rw [← ownerIs_eq_true_iff, hother]
    decide
  unfold getElfNote
  rw [if_neg (by simp [hnote, haddr]), Nat.mod_eq_of_lt hroom,
    getElfNoteLoop_succ_of_fits fuel (by omega) hfits, if_neg (not_not.mpr htype)]
  -- the name size or the name differs
  by_cases hsz : (load32 m noteAddr).toNat = noteName.length + 1
  · rw [if_neg (not_not.mpr hsz), if_pos (fun hwin ↦ hother' ⟨hsz, hwin⟩)]
  · rw [if_pos hsz]

theorem getElfNote_stops_at_other_owner_gnuProperty :
    (getElfNote 64 (noteAt 0x1000 gnuThenPadNote) ntAndroidTypePadSegment androidName 0x1000
      (notePhdr 56) (3 + 1)).1 = .notFound :=
  getElfNote_stops_at_other_owner 64 _ _ _ 0x1000 (notePhdr 56) 3 rfl (by decide) (by decide)
    (by decide) (by decide) (by decide)

/-- The `"Android"` record alone is found, with its descriptor after the 8 bytes of its name. -/
example : (getElfNote 64 (noteAt 0x1000 (gnuThenPadNote.drop 32)) ntAndroidTypePadSegment
    androidName 0x1000 (notePhdr 24) 4).1 = .found 0x1000 0x1014 := by
  decide

/-- On ILP32, a record of another type with `n_namesz = 0` and `n_descsz = 2^32 - 12` comes back
to itself. -/
example : (getElfNote 32 (noteAt 0x1000 [0, 0, 0, 0, 0xf4, 0xff, 0xff, 0xff, 0, 0, 0, 0])
    ntAndroidTypeMemtag androidName 0x1000 (notePhdr 12) 8).1 = .scanning := by
  decide

/-! ### `ReadPadSegmentNote` -/

/-- **`ReadPadSegmentNote` reads past the end of the file**: for a first `PT_NOTE` whose file part
ends in the file but whose first header does not, once mapped (not wrapping), the scan loads that
header, which reaches past `file_size_`. -/
theorem readPadSegmentNote_loads_past_file (w : ℕ) (file : Mem) (r : ElfReader)
    (mapData : ℕ → Option ℕ) (fuel : ℕ) (phdr : Phdr) (phdrs : List Phdr) (data : ℕ)
    (htable : r.phdrTable = phdr :: phdrs) (hnote : phdr.pType = ptNote)
    (hfile : r.fileOffset + phdr.pOffset + phdr.pFilesz ≤ r.fileSize)
    (hpast : r.fileSize < r.fileOffset + phdr.pOffset + sizeofNhdr)
    (hmap : mapData 0 = some data) (hdata : data ≠ 0) (hhdr : sizeofNhdr ≤ phdr.pMemsz)
    (hroom : data + phdr.pMemsz < 2 ^ w) :
    ∃ l ∈ (readPadSegmentNote w file r mapData (fuel + 1)).fileLoads,
      (r.fileSize : ℤ) < l.1 + l.2 := by
  have hmem : phdr.pMemsz ≠ 0 := by
    have : sizeofNhdr = 12 := rfl
    omega
  -- the first load of the scan is the header at `data`, the file offset `file_offset_ + p_offset`
  have hguard : nameAddr w data ≤ (data + phdr.pMemsz) % 2 ^ w := by
    rw [Nat.mod_eq_of_lt hroom, nameAddr, Nat.mod_eq_of_lt (by omega)]
    omega
  have hload : ∀ m : Mem, (data, sizeofNhdr) ∈
      (getElfNote w m ntAndroidTypePadSegment androidName data phdr (fuel + 1)).2 := by
    intro m
    unfold getElfNote
    rw [if_neg (by simp [hnote, hdata])]
    exact header_mem_getElfNoteLoop fuel hguard
  refine ⟨((r.fileOffset + phdr.pOffset : ℕ) + ((data : ℤ) - data), sizeofNhdr), ?_, by push_cast; omega⟩
  unfold readPadSegmentNote
  rw [htable, readPadSegmentNoteFrom, if_neg (by simp [hnote]), if_neg hmem,
    if_neg (by omega), hmap]
  dsimp only
  generalize hg : getElfNote w _ ntAndroidTypePadSegment androidName data phdr (fuel + 1) = g
  have hin := hload (fun a ↦ file (r.fileOffset + phdr.pOffset + (a - data)))
  rw [hg] at hin
  obtain ⟨_ | _ | ⟨hdr, desc⟩, loads⟩ := g
  · exact List.mem_map_of_mem hin
  · exact List.mem_append_left _ (List.mem_map_of_mem hin)
  · dsimp only
    split_ifs
    · exact List.mem_map_of_mem hin
    · exact List.mem_map_of_mem (List.mem_append_left _ hin)

/-- A file holding only the segment of `gnuThenPadNote`: the `"Android"` note is not found and
`should_pad_segments_` is left unwritten. -/
example : (readPadSegmentNote 64 (fun a ↦ gnuThenPadNote.getD a 0) ⟨0, 56, [notePhdr 56]⟩
    (fun _ ↦ some 0x7000) 5).shouldPadSegments = none := by
  decide

end Bionic.Linker.ElfNote
