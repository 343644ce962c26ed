import Bionic.Linker.GnuHash
import Bionic.Lib.CString

/-!
# Symbol lookup across a list of libraries

`soinfo_do_lookup` searches a `SymbolLookupList` for a symbol name. The general search,
`soinfo_do_lookup_impl<true>`, asks each library that only has a SysV hash table through
`soinfo::find_symbol_by_name`, and runs an inlined copy of the GNU hash search for every other
library. The fast search, `soinfo_do_lookup_impl<false>`, runs the inlined copy for every
library; `soinfo_do_lookup` takes it only when the list has no SysV-only library.

The inlined copy (`SymbolLookupLib.inlineLookup`) differs from `soinfo::gnu_lookup`
(`Soinfo.gnuLookup`) in three places: it compares the name with `memcmp` over one byte more than
the name's length behind an explicit bound, where `gnu_lookup` calls `strcmp`; it computes the
version index only once a chain entry matches the hash, where `gnu_lookup` computes it before the
walk; and it tests the chain hash by comparing shifted values rather than through `^`.

`inlineLookup_eq_gnuLookup` shows the two searches agree for a well-formed library
(`Soinfo.WellFormed`: a NUL-terminated string table that every symbol and version name points
into, and version definitions that passed `validate_verdef_section`), and
`soinfoDoLookupImpl_eq_referenceLookup` lifts this to whole lists. The fast search faults on a
SysV-only library, whose lookup record has no Bloom filter
(`soinfoDoLookupImpl_false_sysv_fault`), and `soinfoDoLookup_eq_referenceLookup` shows that the
dispatch of `soinfo_do_lookup` never sends it such a list.

A lookup returns the library and the index of the symbol in its symbol table, `nullptr`, or a
fault (a read past the end of a table, a division by zero, a fatal error, or a loop that never
ends): `Option (Option _)` with the outer `none` for the fault. Tables are lists, and a read past
the end of one is a fault. The name is the list of its bytes before the terminating NUL, and
`calculate_gnu_hash` is its specification `calculateGnuHash`, which both implementations meet
(`calculateGnuHashNeon_eq_simple`). Addresses are 64 bits wide, so a Bloom filter word has 64
bits.
-/

set_option autoImplicit false
set_option relaxedAutoImplicit false

namespace Bionic.Linker.SymbolLookup

open Bionic.Lib.CString Bionic.Linker.GnuHash

/-! ### ELF records -/

/-- `ElfW(Versym)`. -/
abbrev Versym := UInt16

def kVersymNotNeeded : Versym := 0

def kVersymGlobal : Versym := 1

def kVersymHiddenBit : Versym := 0x8000

/-- `VER_FLG_BASE`. -/
def verFlgBase : UInt16 := 0x1

/-- `STB_GLOBAL`, `STB_WEAK`, `STB_LOCAL` and `SHN_UNDEF`. -/
def stbGlobal : UInt8 := 1

def stbWeak : UInt8 := 2

def stbLocal : UInt8 := 0

def shnUndef : UInt16 := 0

/-- `sizeof(ElfW(Addr)) * 8`. -/
def kBloomMaskBits : UInt32 := 64

/-- `ElfW(Sym)`, the fields the lookup reads. -/
structure ElfSym where
  stName : UInt32
  stInfo : UInt8
  stShndx : UInt16
  deriving DecidableEq, Repr

/-- `ELF_ST_BIND`. -/
def elfStBind (info : UInt8) : UInt8 := info >>> 4

/-- An `ElfW(Verdef)` entry with the name of its first `ElfW(Verdaux)`, in the order
`for_each_verdef` visits them. -/
structure Verdef where
  vdVersion : UInt16
  vdFlags : UInt16
  vdNdx : Versym
  vdCnt : UInt16
  vdHash : UInt32
  vdaName : UInt32
  deriving DecidableEq, Repr

/-- The GNU hash table of a library (`DT_GNU_HASH`); `gnuMaskwords` is already one less than the
number of Bloom filter words. -/
structure GnuHashTable where
  gnuNbucket : ℕ
  gnuBucket : List UInt32
  gnuChain : List UInt32
  gnuMaskwords : UInt32
  gnuShift2 : UInt32
  gnuBloomFilter : List UInt64
  deriving DecidableEq, Repr

/-- The SysV hash table of a library (`DT_HASH`). -/
structure SysvHashTable where
  nbucket : ℕ
  bucket : List UInt32
  chain : List UInt32
  deriving DecidableEq, Repr

/-- The hash table a library is searched with: `is_gnu_hash()` selects the GNU one. -/
inductive HashTable
  | gnu (table : GnuHashTable)
  | sysv (table : SysvHashTable)
  deriving DecidableEq, Repr

/-- The fields of `soinfo` that symbol lookup reads. `strtab_size_` is the length of `strtab`. -/
structure Soinfo where
  strtab : List UInt8
  symtab : List ElfSym
  versym : Option (List Versym)
  verdef : List Verdef
  hashTable : HashTable
  deriving DecidableEq, Repr

/-- `version_info`: the requested version's ELF hash and name. -/
structure VersionInfo where
  elfHash : UInt32
  name : List UInt8
  deriving DecidableEq, Repr

/-- `calculate_gnu_hash`: the GNU hash and the length of the name, as both the NEON kernel and
the byte loop compute them (`calculateGnuHashNeon_eq_simple`). -/
def calculateGnuHash (name : List UInt8) : UInt32 × UInt32 := (gnuHash name, UInt32.ofNat name.length)

/-- `calculate_elf_hash`. -/
def calculateElfHash (name : List UInt8) : UInt32 :=
  name.foldl (fun h c ↦
    let h := (h <<< 4) + c.toUInt32
    let g := h &&& 0xf0000000
    let h := h ^^^ g
    h ^^^ (g >>> 24)) 0

/-! ### The per-library lookups of `soinfo` -/

namespace Soinfo

/-- `soinfo::get_string`: an index at or past `strtab_size_` is fatal. The string ends at the
first NUL byte of the table. -/
def getString (si : Soinfo) (index : UInt32) : Option (List UInt8) :=
  if si.strtab.length ≤ index.toNat then none else some (stringAt 0 (si.strtab.drop index.toNat))

end Soinfo

/-- `check_symbol_version`: without a version table any version matches; otherwise an
unversioned request takes any non-hidden definition and a versioned one the exact index. -/
def checkSymbolVersion (verTable : Option (List Versym)) (symIdx : ℕ) (verneed : Versym) :
    Option Bool :=
  match verTable with
  | none => some true
  | some table =>
    table[symIdx]?.map fun verdef ↦
      if verneed = kVersymNotNeeded then (verdef &&& kVersymHiddenBit) = 0
      else verneed = (verdef &&& ~~~kVersymHiddenBit)

/-- `is_symbol_global_and_defined`: a global or weak symbol with a section. For a binding that is
neither of these nor local it prints the symbol's name, which reads the string table. -/
def isSymbolGlobalAndDefined (si : Soinfo) (sym : ElfSym) : Option Bool :=
  let bind := elfStBind sym.stInfo
  if bind = stbGlobal ∨ bind = stbWeak then some (sym.stShndx ≠ shnUndef)
  else if bind ≠ stbLocal then (si.getString sym.stName).map fun _ ↦ false
  else some false

/-- The walk of `for_each_verdef` with the functor of `find_verdef_version_index`: an entry with
`vd_version != 1`, or a non-base entry without names, stops the walk with an error, which is
fatal there. -/
def findVerdefVersionIndexLoop (si : Soinfo) (vi : VersionInfo) : List Verdef → Option Versym
  | [] => some kVersymGlobal
  | verdef :: rest =>
    if verdef.vdVersion ≠ 1 then none
    else if (verdef.vdFlags &&& verFlgBase) ≠ 0 then findVerdefVersionIndexLoop si vi rest
    else if verdef.vdCnt = 0 then none
    else if verdef.vdHash = vi.elfHash then
      match si.getString verdef.vdaName with
      | none => none
      | some name => if vi.name = name then some verdef.vdNdx else findVerdefVersionIndexLoop si vi rest
    else findVerdefVersionIndexLoop si vi rest

/-- `find_verdef_version_index`. -/
def findVerdefVersionIndex (si : Soinfo) : Option VersionInfo → Option Versym
  | none => some kVersymNotNeeded
  | some vi => findVerdefVersionIndexLoop si vi si.verdef

namespace Soinfo

/-- The test `check_symbol_version(versym, n, verneed) && strcmp(get_string(s->st_name), name)
== 0 && is_symbol_global_and_defined(this, s)` that `gnu_lookup` and `elf_lookup` apply to symbol
`n`, evaluated from the left. -/
def symbolMatches (si : Soinfo) (name : List UInt8) (verneed : Versym) (n : ℕ) : Option Bool :=
  match checkSymbolVersion si.versym n verneed with
  | none => none
  | some false => some false
  | some true =>
    match si.symtab[n]? with
    | none => none
    | some sym =>
      match si.getString sym.stName with
      | none => none
      | some string => if string = name then isSymbolGlobalAndDefined si sym else some false

/-- The test of one chain entry in `soinfo::gnu_lookup`: the chain hash first. -/
def gnuLookupMatches (si : Soinfo) (name : List UInt8) (hash : UInt32) (verneed : Versym)
    (n : ℕ) (chainValue : UInt32) : Option Bool :=
  if ((chainValue ^^^ hash) >>> 1) = 0 then si.symbolMatches name verneed n else some false

/-- The `do ... while ((gnu_chain_[n++] & 1) == 0)` walk of `soinfo::gnu_lookup`, one unit of
fuel per entry. -/
def gnuLookupWalk (si : Soinfo) (table : GnuHashTable) (name : List UInt8) (hash : UInt32)
    (verneed : Versym) : ℕ → ℕ → Option (Option ℕ)
  | 0, _ => none
  | fuel + 1, n =>
    match table.gnuChain[n]? with
    | none => none
    | some chainValue =>
      match si.gnuLookupMatches name hash verneed n chainValue with
      | none => none
      | some true => some (some n)
      | some false =>
        if (chainValue &&& 1) = 0 then gnuLookupWalk si table name hash verneed fuel (n + 1)
        else some none

/-- `soinfo::gnu_lookup`: the Bloom filter test, the bucket, the version index, then the walk
along the chain. -/
def gnuLookup (si : Soinfo) (table : GnuHashTable) (name : List UInt8) (vi : Option VersionInfo) :
    Option (Option ℕ) :=
  let hash := gnuHash name
  let wordNum := (hash / kBloomMaskBits) &&& table.gnuMaskwords
  match table.gnuBloomFilter[wordNum.toNat]? with
  | none => none
  | some bloomWord =>
    let h1 := hash % kBloomMaskBits
    let h2 := (hash >>> table.gnuShift2) % kBloomMaskBits
    if (1 &&& (bloomWord >>> h1.toUInt64) &&& (bloomWord >>> h2.toUInt64)) = 0 then some none
    else if table.gnuNbucket = 0 then none
    else
      match table.gnuBucket[hash.toNat % table.gnuNbucket]? with
      | none => none
      | some n =>
        if n = 0 then some none
        else
          match findVerdefVersionIndex si vi with
          | none => none
          | some verneed => si.gnuLookupWalk table name hash verneed (table.gnuChain.length + 1) n.toNat

/-- The `for (n = bucket_[...]; n != 0; n = chain_[n])` walk of `soinfo::elf_lookup`. A walk
longer than the chain revisits an entry and never ends, which is a fault of the model too. -/
def elfLookupWalk (si : Soinfo) (table : SysvHashTable) (name : List UInt8) (verneed : Versym) :
    ℕ → ℕ → Option (Option ℕ)
  | 0, _ => none
  | fuel + 1, n =>
    if n = 0 then some none
    else
      match si.symbolMatches name verneed n with
      | none => none
      | some true => some (some n)
      | some false =>
        match table.chain[n]? with
        | none => none
        | some next => elfLookupWalk si table name verneed fuel next.toNat

/-- `soinfo::elf_lookup`. -/
def elfLookup (si : Soinfo) (table : SysvHashTable) (name : List UInt8) (vi : Option VersionInfo) :
    Option (Option ℕ) :=
  let hash := calculateElfHash name
  match findVerdefVersionIndex si vi with
  | none => none
  | some verneed =>
    if table.nbucket = 0 then none
    else
      match table.bucket[hash.toNat % table.nbucket]? with
      | none => none
      | some n => si.elfLookupWalk table name verneed (table.chain.length + 1) n.toNat

/-- `soinfo::find_symbol_by_name`. -/
def findSymbolByName (si : Soinfo) (name : List UInt8) (vi : Option VersionInfo) :
    Option (Option ℕ) :=
  match si.hashTable with
  | .gnu table => si.gnuLookup table name vi
  | .sysv table => si.elfLookup table name vi

end Soinfo

/-! ### The lookup list and the inlined search -/

/-- `SymbolLookupLib`: the copy of a library's GNU hash fields that the inlined search reads. The
record of a SysV-only library has no Bloom filter (`nullptr`) and empty tables. -/
structure SymbolLookupLib where
  gnuMaskwords : UInt32
  gnuShift2 : UInt32
  gnuBloomFilter : Option (List UInt64)
  strtab : List UInt8
  symtab : List ElfSym
  versym : Option (List Versym)
  gnuChain : List UInt32
  gnuNbucket : ℕ
  gnuBucket : List UInt32
  si : Soinfo
  deriving DecidableEq, Repr

/-- `SymbolLookupLib::needs_sysv_lookup`. -/
def SymbolLookupLib.needsSysvLookup (lib : SymbolLookupLib) : Bool := lib.gnuBloomFilter.isNone

/-- `soinfo::get_lookup_lib`. -/
def Soinfo.getLookupLib (si : Soinfo) : SymbolLookupLib :=
  match si.hashTable with
  | .sysv _ =>
    { gnuMaskwords := 0, gnuShift2 := 0, gnuBloomFilter := none, strtab := [], symtab := [],
      versym := none, gnuChain := [], gnuNbucket := 0, gnuBucket := [], si }
  | .gnu table =>
    { gnuMaskwords := table.gnuMaskwords, gnuShift2 := table.gnuShift2,
      gnuBloomFilter := some table.gnuBloomFilter, strtab := si.strtab, symtab := si.symtab,
      versym := si.versym, gnuChain := table.gnuChain, gnuNbucket := table.gnuNbucket,
      gnuBucket := table.gnuBucket, si }

namespace SymbolLookupLib

/-- The Bloom filter and bucket test of the inlined search: the index where the chain walk
starts, or `nullptr` inside when the library cannot define the name. A SysV-only record has a
`nullptr` Bloom filter, and reading it faults. -/
def bloomBucket (lib : SymbolLookupLib) (hash : UInt32) : Option (Option ℕ) :=
  let wordNum := (hash / kBloomMaskBits) &&& lib.gnuMaskwords
  match lib.gnuBloomFilter with
  | none => none
  | some bloomFilter =>
    match bloomFilter[wordNum.toNat]? with
    | none => none
    | some bloomWord =>
      let h1 := hash % kBloomMaskBits
      let h2 := (hash >>> lib.gnuShift2) % kBloomMaskBits
      if (1 &&& (bloomWord >>> h1.toUInt64) &&& (bloomWord >>> h2.toUInt64)) = 1 then
        if lib.gnuNbucket = 0 then none
        else
          match lib.gnuBucket[hash.toNat % lib.gnuNbucket]? with
          | none => none
          | some symIdx => if symIdx ≠ 0 then some (some symIdx.toNat) else some none
      else some none

/-- The version index at a chain entry whose hash matches: `find_verdef_version_index` runs the
first time, when a version is requested, and its result is kept. -/
def lazyVerneed (lib : SymbolLookupLib) (vi : Option VersionInfo) (calculatedVerneed : Bool)
    (verneed : Versym) : Option (Bool × Versym) :=
  if vi.isSome && !calculatedVerneed then
    (findVerdefVersionIndex lib.si vi).map fun index ↦ (true, index)
  else some (calculatedVerneed, verneed)

/-- The test of a chain entry whose hash matches, in the order of its `&&`: the version, the
bound on the string table, `memcmp` over `name_len + 1` bytes, and the binding. The bound adds in
`size_t`; the byte count of `memcmp` is the `uint32_t` sum, which is `0` when `name_len` is
`2^32 - 1`. -/
def entryMatches (lib : SymbolLookupLib) (name : List UInt8) (nameLen : UInt32)
    (verneed : Versym) (symIdx : ℕ) : Option Bool :=
  match checkSymbolVersion lib.versym symIdx verneed with
  | none => none
  | some false => some false
  | some true =>
    match lib.symtab[symIdx]? with
    | none => none
    | some sym =>
      if sym.stName.toNat + nameLen.toNat + 1 ≤ lib.strtab.length ∧
          (lib.strtab.drop sym.stName.toNat).take (nameLen + 1).toNat =
            (name ++ [0]).take (nameLen + 1).toNat then
        isSymbolGlobalAndDefined lib.si sym
      else some false

/-- The `do ... while ((chain_value & 1) == 0)` walk of the inlined search, one unit of fuel
per entry. -/
def chainSearch (lib : SymbolLookupLib) (name : List UInt8) (hash nameLen : UInt32)
    (vi : Option VersionInfo) : ℕ → ℕ → Bool → Versym → Option (Option ℕ)
  | 0, _, _, _ => none
  | fuel + 1, symIdx, calculatedVerneed, verneed =>
    match lib.gnuChain[symIdx]? with
    | none => none
    | some chainValue =>
      if chainValue >>> 1 = hash >>> 1 then
        match lib.lazyVerneed vi calculatedVerneed verneed with
        | none => none
        | some (calculatedVerneed, verneed) =>
          match lib.entryMatches name nameLen verneed symIdx with
          | none => none
          | some true => some (some symIdx)
          | some false =>
            if (chainValue &&& 1) = 0 then
              chainSearch lib name hash nameLen vi fuel (symIdx + 1) calculatedVerneed verneed
            else some none
      else if (chainValue &&& 1) = 0 then
        chainSearch lib name hash nameLen vi fuel (symIdx + 1) calculatedVerneed verneed
      else some none

/-- The inlined GNU hash search of `soinfo_do_lookup_impl` for one library. -/
def inlineLookup (lib : SymbolLookupLib) (name : List UInt8) (hash nameLen : UInt32)
    (vi : Option VersionInfo) : Option (Option ℕ) :=
  match lib.bloomBucket hash with
  | none => none
  | some none => some none
  | some (some symIdx) =>
    lib.chainSearch name hash nameLen vi (lib.gnuChain.length + 1) symIdx false kVersymNotNeeded

end SymbolLookupLib

/-- The loop over libraries of `soinfo_do_lookup_impl<IsGeneral>`: the general search sends a
SysV-only library to `find_symbol_by_name`, and every other library goes through the inlined
search. -/
def soinfoDoLookupLoop (isGeneral : Bool) (name : List UInt8) (vi : Option VersionInfo)
    (hash nameLen : UInt32) : List SymbolLookupLib → Option (Option (Soinfo × ℕ))
  | [] => some none
  | lib :: rest =>
    let found :=
      if isGeneral && lib.needsSysvLookup then lib.si.findSymbolByName name vi
      else lib.inlineLookup name hash nameLen vi
    match found with
    | none => none
    | some (some symIdx) => some (some (lib.si, symIdx))
    | some none => soinfoDoLookupLoop isGeneral name vi hash nameLen rest

/-- `SymbolLookupList`. `symbolicSlot` is `libs_[0]`, searched first when it holds a library
(`begin_` then points at it); a list made for one library has no `libs_` vector and no slot. -/
structure SymbolLookupList where
  symbolicSlot : Option (Option SymbolLookupLib)
  libs : List SymbolLookupLib
  slowPathCount : ℕ
  deriving DecidableEq, Repr

namespace SymbolLookupList

/-- The libraries from `begin_` to `end_`. -/
def range (list : SymbolLookupList) : List SymbolLookupLib :=
  match list.symbolicSlot with
  | some (some lib) => lib :: list.libs
  | _ => list.libs

/-- `SymbolLookupList(soinfo* si)`; `lookupTracing` is `is_lookup_tracing_enabled()`. -/
def ofSoinfo (lookupTracing : Bool) (si : Soinfo) : SymbolLookupList :=
  { symbolicSlot := none
    libs := [si.getLookupLib]
    slowPathCount := lookupTracing.toNat + si.getLookupLib.needsSysvLookup.toNat }

/-- `SymbolLookupList(global_group, local_group)`. -/
def ofGroups (lookupTracing : Bool) (globalGroup localGroup : List Soinfo) : SymbolLookupList :=
  { symbolicSlot := some none
    libs := (globalGroup ++ localGroup).map Soinfo.getLookupLib
    slowPathCount := lookupTracing.toNat +
      ((globalGroup ++ localGroup).map Soinfo.getLookupLib).countP SymbolLookupLib.needsSysvLookup }

/-- How `libs_[0]` counts in `slow_path_count_`: an empty slot is `SymbolLookupLib()`, which
needs no SysV lookup. -/
def slotSysvCount (slot : Option SymbolLookupLib) : ℕ :=
  match slot with
  | none => 0
  | some lib => lib.needsSysvLookup.toNat

/-- `set_dt_symbolic_lib`; `CHECK(!libs_.empty())` fails on a list made for one library. -/
def setDtSymbolicLib (list : SymbolLookupList) (lib : Option Soinfo) :
    Option SymbolLookupList :=
  match list.symbolicSlot with
  | none => none
  | some slot =>
    let newSlot := lib.map Soinfo.getLookupLib
    some { list with
      symbolicSlot := some newSlot
      slowPathCount := list.slowPathCount - slotSysvCount slot + slotSysvCount newSlot }

/-- `needs_slow_path`. -/
def needsSlowPath (list : SymbolLookupList) : Bool := 0 < list.slowPathCount

end SymbolLookupList

/-- `soinfo_do_lookup_impl<IsGeneral>`: hash the name once, then search the list. -/
def soinfoDoLookupImpl (isGeneral : Bool) (name : List UInt8) (vi : Option VersionInfo)
    (list : SymbolLookupList) : Option (Option (Soinfo × ℕ)) :=
  let (hash, nameLen) := calculateGnuHash name
  soinfoDoLookupLoop isGeneral name vi hash nameLen list.range

/-- `soinfo_do_lookup`: the general search when the list needs it, the fast one otherwise. -/
def soinfoDoLookup (name : List UInt8) (vi : Option VersionInfo) (list : SymbolLookupList) :
    Option (Option (Soinfo × ℕ)) :=
  if list.needsSlowPath then soinfoDoLookupImpl true name vi list
  else soinfoDoLookupImpl false name vi list

/-- The search the lookup implements: the first library, in the order given, whose own
`find_symbol_by_name` returns a symbol. -/
def referenceLookup (name : List UInt8) (vi : Option VersionInfo) :
    List Soinfo → Option (Option (Soinfo × ℕ))
  | [] => some none
  | si :: rest =>
    match si.findSymbolByName name vi with
    | none => none
    | some (some symIdx) => some (some (si, symIdx))
    | some none => referenceLookup name vi rest

/-! ### Well-formed libraries -/

/-- What the lookups assume of a library: a string table that ends with a NUL byte, symbol names
inside it, and version definitions that passed `validate_verdef_section` and whose names
`VersionTracker::init_verdef` has read. -/
structure Soinfo.WellFormed (si : Soinfo) : Prop where
  strtab_nul : si.strtab.getLast? = some 0
  stName_lt : ∀ sym ∈ si.symtab, sym.stName.toNat < si.strtab.length
  verdef_valid : ∀ verdef ∈ si.verdef, verdef.vdVersion = 1 ∧
    ((verdef.vdFlags &&& verFlgBase) = 0 → verdef.vdCnt ≠ 0 ∧ verdef.vdaName.toNat < si.strtab.length)

theorem Soinfo.getString_of_lt {si : Soinfo} {index : UInt32} (h : index.toNat < si.strtab.length) :
    si.getString index = some (stringAt 0 (si.strtab.drop index.toNat)) := by
  simp [getString, Nat.not_le.mpr h]

theorem findVerdefVersionIndexLoop_isSome (si : Soinfo) (vi : VersionInfo) (verdefs : List Verdef)
    (hvalid : ∀ verdef ∈ verdefs, verdef.vdVersion = 1 ∧
      ((verdef.vdFlags &&& verFlgBase) = 0 →
        verdef.vdCnt ≠ 0 ∧ verdef.vdaName.toNat < si.strtab.length)) :
    (findVerdefVersionIndexLoop si vi verdefs).isSome := by
  induction verdefs with
  | nil => rfl
  | cons verdef rest ih =>
    obtain ⟨hversion, hnamed⟩ := hvalid verdef List.mem_cons_self
    have ih := ih fun v hv ↦ hvalid v (List.mem_cons_of_mem _ hv)
    by_cases hbase : (verdef.vdFlags &&& verFlgBase) = 0
    · obtain ⟨hcnt, hname⟩ := hnamed hbase
      -- a named version: its name is read, and either matches or the walk goes on
      simp only [findVerdefVersionIndexLoop, hversion, hbase, hcnt, Soinfo.getString_of_lt hname,
        ne_eq, not_true_eq_false, if_false]
      split_ifs <;> simp [ih]
    · simp [findVerdefVersionIndexLoop, hversion, hbase, ih]

theorem findVerdefVersionIndex_isSome {si : Soinfo} (hwf : si.WellFormed) (vi : Option VersionInfo) :
    (findVerdefVersionIndex si vi).isSome := by
  cases vi with
  | none => rfl
  | some vi => exact findVerdefVersionIndexLoop_isSome si vi si.verdef hwf.verdef_valid

/-! ### The inlined search against `gnu_lookup` -/

/-- The chain test of the inlined search, `(chain_value >> 1) == (hash >> 1)`, is the one of
`gnu_lookup`, `((chain_value ^ hash) >> 1) == 0`. -/
theorem shiftRight_one_eq_iff (chainValue hash : UInt32) :
    chainValue >>> 1 = hash >>> 1 ↔ ((chainValue ^^^ hash) >>> 1) = 0 := by
  rw [UInt32.shiftRight_xor, UInt32.xor_eq_zero_iff]

theorem bloomBit_eq_zero_or_one (x y : UInt64) : (1 &&& x &&& y) = 0 ∨ (1 &&& x &&& y) = 1 := by
  have h : (1 &&& x &&& y).toNat < 2 := by
    rw [UInt64.and_assoc, UInt64.toNat_and, UInt64.toNat_one, Nat.one_and_eq_mod_two]
    omega
  rw [← UInt64.toNat_inj, ← UInt64.toNat_inj, UInt64.toNat_zero, UInt64.toNat_one]
  omega

theorem Soinfo.getLookupLib_si (si : Soinfo) : si.getLookupLib.si = si := by
  unfold getLookupLib
  split <;> rfl

theorem Soinfo.getLookupLib_of_gnu {si : Soinfo} {table : GnuHashTable}
    (hgnu : si.hashTable = .gnu table) :
    si.getLookupLib =
      { gnuMaskwords := table.gnuMaskwords, gnuShift2 := table.gnuShift2,
        gnuBloomFilter := some table.gnuBloomFilter, strtab := si.strtab, symtab := si.symtab,
        versym := si.versym, gnuChain := table.gnuChain, gnuNbucket := table.gnuNbucket,
        gnuBucket := table.gnuBucket, si } := by
  rw [getLookupLib, hgnu]

theorem Soinfo.needsSysvLookup_getLookupLib (si : Soinfo) :
    si.getLookupLib.needsSysvLookup = (si.hashTable matches .sysv _) := by
  unfold getLookupLib
  split <;> simp_all [SymbolLookupLib.needsSysvLookup]

/-- Once a chain entry matches the hash, the lazily computed version index is the one that
`gnu_lookup` computes up front. -/
theorem SymbolLookupLib.lazyVerneed_eq (lib : SymbolLookupLib) {vi : Option VersionInfo}
    {verneed : Versym} (hverneed : findVerdefVersionIndex lib.si vi = some verneed)
    (calculated : Bool) (current : Versym) (hcurrent : calculated = true ∨ vi = none → current = verneed) :
    lib.lazyVerneed vi calculated current = some (calculated || vi.isSome, verneed) := by
  by_cases hfirst : vi.isSome = true ∧ calculated = false
  · obtain ⟨hsome, rfl⟩ := hfirst
    simp [lazyVerneed, hsome, hverneed]
  · -- the index was computed before, or no version is requested
    have hkept : calculated = true ∨ vi = none := by
      cases vi <;> cases calculated <;> simp_all
    rcases hkept with rfl | rfl <;> simp [lazyVerneed, hcurrent]

section GnuLibrary

variable {si : Soinfo} {table : GnuHashTable} {name : List UInt8}

theorem entryMatches_getLookupLib (hgnu : si.hashTable = .gnu table) (hwf : si.WellFormed)
    (hname : 0 ∉ name) (hlen : name.length < 2 ^ 32 - 1) (verneed : Versym) (n : ℕ) :
    si.getLookupLib.entryMatches name (UInt32.ofNat name.length) verneed n =
      si.symbolMatches name verneed n := by
  have hnameLen : (UInt32.ofNat name.length).toNat = name.length :=
    UInt32.toNat_ofNat_of_lt (by simp only [UInt32.size]; omega)
  -- below `2^32 - 1` bytes the `uint32_t` byte count of `memcmp` does not wrap
  have hcount : (UInt32.ofNat name.length + 1).toNat = name.length + 1 := by
    rw [UInt32.toNat_add, hnameLen, UInt32.toNat_one, Nat.mod_eq_of_lt (by omega)]
  rw [Soinfo.getLookupLib_of_gnu hgnu]
  simp only [SymbolLookupLib.entryMatches, Soinfo.symbolMatches, hnameLen, hcount]
  rcases checkSymbolVersion si.versym n verneed with _ | _ | _
  · rfl
  · rfl
  · rcases hsym : si.symtab[n]? with _ | sym
    · rfl
    · have hlt := hwf.stName_lt sym (List.mem_of_getElem? hsym)
      have hnul := mem_drop_of_getLast?_eq hwf.strtab_nul hlt
      simp only [Soinfo.getString_of_lt hlt,
        ← stringAt_drop_eq_iff_bounded_take 0 name si.strtab _ hname hnul]

/-- The walk of the inlined search is the walk of `gnu_lookup`, from any state of the lazily
computed version index that agrees with the index `gnu_lookup` computed. -/
theorem chainSearch_getLookupLib (hgnu : si.hashTable = .gnu table) (hwf : si.WellFormed)
    (hname : 0 ∉ name) (hlen : name.length < 2 ^ 32 - 1) {vi : Option VersionInfo} {verneed : Versym}
    (hverneed : findVerdefVersionIndex si vi = some verneed) (fuel n : ℕ) (calculated : Bool)
    (current : Versym) (hcurrent : calculated = true ∨ vi = none → current = verneed) :
    si.getLookupLib.chainSearch name (gnuHash name) (UInt32.ofNat name.length) vi fuel n
        calculated current =
      si.gnuLookupWalk table name (gnuHash name) verneed fuel n := by
  have hchain : si.getLookupLib.gnuChain = table.gnuChain := by
    rw [Soinfo.getLookupLib_of_gnu hgnu]
  have hlazy := si.getLookupLib.lazyVerneed_eq (si.getLookupLib_si.symm ▸ hverneed)
  -- the induction is on the fuel; the lazy index state is what changes along the walk
  induction fuel generalizing n calculated current with
  | zero => rfl
  | succ fuel ih =>
    rw [SymbolLookupLib.chainSearch, Soinfo.gnuLookupWalk, hchain]
    rcases table.gnuChain[n]? with _ | chainValue
    · rfl
    · simp only [Soinfo.gnuLookupMatches, ← shiftRight_one_eq_iff]
      by_cases hhash : chainValue >>> 1 = gnuHash name >>> 1
      · simp only [hhash, if_true, hlazy calculated current hcurrent,
          entryMatches_getLookupLib hgnu hwf hname hlen]
        rcases si.symbolMatches name verneed n with _ | _ | _
        · rfl
        · simp only
          split_ifs
          · exact ih (n + 1) _ verneed fun _ ↦ rfl
          · rfl
        · rfl
      · simp only [hhash, if_false]
        split_ifs
        · exact ih (n + 1) calculated current hcurrent
        · rfl

/-- The inlined GNU hash search of `soinfo_do_lookup_impl` finds what `soinfo::gnu_lookup` finds,
faults where it faults, and reports `nullptr` where it does. -/
theorem inlineLookup_eq_gnuLookup (hgnu : si.hashTable = .gnu table) (hwf : si.WellFormed)
    (hname : 0 ∉ name) (hlen : name.length < 2 ^ 32 - 1) (vi : Option VersionInfo) :
    si.getLookupLib.inlineLookup name (gnuHash name) (UInt32.ofNat name.length) vi =
      si.gnuLookup table name vi := by
  obtain ⟨verneed, hverneed⟩ := Option.isSome_iff_exists.mp (findVerdefVersionIndex_isSome hwf vi)
  have hwalk := chainSearch_getLookupLib hgnu hwf hname hlen hverneed (table.gnuChain.length + 1)
  have hstart : false = true ∨ vi = none → kVersymNotNeeded = verneed := by
    rintro (h | rfl)
    · cases h
    · simpa [findVerdefVersionIndex] using hverneed
  have hchainLen : si.getLookupLib.gnuChain.length = table.gnuChain.length := by
    rw [Soinfo.getLookupLib_of_gnu hgnu]
  rw [SymbolLookupLib.inlineLookup, hchainLen]
  rw [Soinfo.getLookupLib_of_gnu hgnu] at hwalk
  simp only [SymbolLookupLib.bloomBucket, Soinfo.gnuLookup, Soinfo.getLookupLib_of_gnu hgnu]
  rcases table.gnuBloomFilter[((gnuHash name / kBloomMaskBits) &&& table.gnuMaskwords).toNat]?
    with _ | bloomWord
  · rfl
  · rcases bloomBit_eq_zero_or_one (bloomWord >>> (gnuHash name % kBloomMaskBits).toUInt64)
      (bloomWord >>> ((gnuHash name >>> table.gnuShift2) % kBloomMaskBits).toUInt64) with hbit | hbit
    · simp only [hbit, if_true, if_neg (show (0 : UInt64) ≠ 1 by decide)]
    · simp only [hbit, if_true, if_neg (show (1 : UInt64) ≠ 0 by decide)]
      split_ifs with hnbucket
      · rfl
      · rcases table.gnuBucket[(gnuHash name).toNat % table.gnuNbucket]? with _ | symIdx
        · rfl
        · by_cases hzero : symIdx = 0
          · simp [hzero]
          · simp only [hzero, if_false, ne_eq, not_false_eq_true, if_true, hverneed]
            exact hwalk symIdx.toNat false kVersymNotNeeded hstart

end GnuLibrary

/-! ### Whole lists -/

/-- What every list that the constructors and `set_dt_symbolic_lib` build satisfies: each record
is its library's `get_lookup_lib`, and `slow_path_count_` counts lookup tracing and the SysV-only
libraries. -/
structure SymbolLookupList.Valid (list : SymbolLookupList) (lookupTracing : Bool) : Prop where
  lookupLib : ∀ lib ∈ list.range, lib = lib.si.getLookupLib
  slowPathCount :
    list.slowPathCount = lookupTracing.toNat + list.range.countP SymbolLookupLib.needsSysvLookup

namespace SymbolLookupList

theorem range_eq (list : SymbolLookupList) :
    list.range = list.symbolicSlot.join.toList ++ list.libs := by
  rcases list with ⟨_ | _ | lib, libs, count⟩ <;> rfl

theorem slotSysvCount_eq (slot : Option SymbolLookupLib) :
    slotSysvCount slot = slot.toList.countP SymbolLookupLib.needsSysvLookup := by
  cases slot with
  | none => rfl
  | some lib => cases h : lib.needsSysvLookup <;> simp [slotSysvCount, h]

theorem valid_ofSoinfo (lookupTracing : Bool) (si : Soinfo) :
    (ofSoinfo lookupTracing si).Valid lookupTracing where
  lookupLib := by simp [range, ofSoinfo, Soinfo.getLookupLib_si]
  slowPathCount := by
    cases h : si.getLookupLib.needsSysvLookup <;> simp [range, ofSoinfo, h]

theorem valid_ofGroups (lookupTracing : Bool) (globalGroup localGroup : List Soinfo) :
    (ofGroups lookupTracing globalGroup localGroup).Valid lookupTracing where
  lookupLib := by
    intro lib hlib
    obtain ⟨si, -, rfl⟩ := List.mem_map.mp hlib
    rw [Soinfo.getLookupLib_si]
  slowPathCount := rfl

theorem Valid.setDtSymbolicLib {list list' : SymbolLookupList} {lookupTracing : Bool}
    (hvalid : list.Valid lookupTracing) {lib : Option Soinfo}
    (hset : list.setDtSymbolicLib lib = some list') : list'.Valid lookupTracing := by
  unfold SymbolLookupList.setDtSymbolicLib at hset
  rcases hslot : list.symbolicSlot with _ | slot
  · simp [hslot] at hset
  · simp only [hslot, Option.some.injEq] at hset
    subst hset
    have hrange := range_eq list
    rw [hslot, Option.join_some] at hrange
    constructor
    · intro l hl
      rw [range_eq, Option.join_some, List.mem_append] at hl
      rcases hl with hl | hl
      · -- the new slot holds `get_lookup_lib` of the DT_SYMBOLIC library
        cases lib with
        | none => simp at hl
        | some si =>
          simp only [Option.map_some, Option.toList_some, List.mem_singleton] at hl
          rw [hl, Soinfo.getLookupLib_si]
      · exact hvalid.lookupLib l (by rw [hrange]; exact List.mem_append_right _ hl)
    · have hcount := hvalid.slowPathCount
      rw [hrange, List.countP_append, ← slotSysvCount_eq] at hcount
      rw [range_eq, Option.join_some, List.countP_append, ← slotSysvCount_eq]
      simp only
      omega

end SymbolLookupList

/-- One library of the loop of `soinfo_do_lookup_impl`: the search it gets is the library's own
`find_symbol_by_name`, as long as the fast search is not sent a SysV-only library. -/
theorem librarySearch_eq_findSymbolByName (isGeneral : Bool) {si : Soinfo} (hwf : si.WellFormed)
    {name : List UInt8} (hname : 0 ∉ name) (hlen : name.length < 2 ^ 32 - 1) (vi : Option VersionInfo)
    (hgeneral : isGeneral = true ∨ si.getLookupLib.needsSysvLookup = false) :
    (if isGeneral && si.getLookupLib.needsSysvLookup then si.getLookupLib.si.findSymbolByName name vi
      else si.getLookupLib.inlineLookup name (gnuHash name) (UInt32.ofNat name.length) vi) =
      si.findSymbolByName name vi := by
  rw [Soinfo.getLookupLib_si]
  rcases hhash : si.hashTable with table | table
  · have hfast : si.getLookupLib.needsSysvLookup = false := by
      simp [Soinfo.needsSysvLookup_getLookupLib, hhash]
    rw [hfast, Bool.and_false, if_neg Bool.false_ne_true,
      inlineLookup_eq_gnuLookup hhash hwf hname hlen, Soinfo.findSymbolByName, hhash]
  · -- a SysV-only library: only the general search may meet it, and it asks `elf_lookup`
    have hslow : si.getLookupLib.needsSysvLookup = true := by
      simp [Soinfo.needsSysvLookup_getLookupLib, hhash]
    have hgen : isGeneral = true := by simpa [hslow] using hgeneral
    rw [hslow, hgen, Bool.and_true, if_pos rfl]

/-- The loop of `soinfo_do_lookup_impl` over valid records of well-formed libraries is the
reference search, provided the fast search meets no SysV-only library. -/
theorem soinfoDoLookupLoop_eq_referenceLookup (isGeneral : Bool) {name : List UInt8}
    (hname : 0 ∉ name) (hlen : name.length < 2 ^ 32 - 1) (vi : Option VersionInfo)
    (libs : List SymbolLookupLib) (hlibs : ∀ lib ∈ libs, lib = lib.si.getLookupLib)
    (hwf : ∀ lib ∈ libs, lib.si.WellFormed)
    (hgeneral : isGeneral = true ∨ ∀ lib ∈ libs, lib.needsSysvLookup = false) :
    soinfoDoLookupLoop isGeneral name vi (gnuHash name) (UInt32.ofNat name.length) libs =
      referenceLookup name vi (libs.map SymbolLookupLib.si) := by
  induction libs with
  | nil => rfl
  | cons lib rest ih =>
    have hlib := hlibs lib List.mem_cons_self
    have hstep := librarySearch_eq_findSymbolByName isGeneral (hwf lib List.mem_cons_self) hname
      hlen vi (hgeneral.imp_right fun h ↦ by rw [← hlib]; exact h lib List.mem_cons_self)
    rw [← hlib] at hstep
    have hrest := ih (fun l hl ↦ hlibs l (List.mem_cons_of_mem _ hl))
      (fun l hl ↦ hwf l (List.mem_cons_of_mem _ hl))
      (hgeneral.imp_right fun h l hl ↦ h l (List.mem_cons_of_mem _ hl))
    simp only [soinfoDoLookupLoop, hstep, List.map_cons, referenceLookup]
    rcases lib.si.findSymbolByName name vi with _ | _ | symIdx
    · rfl
    · exact hrest
    · rfl

/-- A SysV-only library that defines the global symbol `a` as entry 1 of its symbol table. -/
def sysvOnlyLib : Soinfo where
  strtab := [0, 97, 0]
  symtab := [⟨0, 0, 0⟩, ⟨1, 0x10, 1⟩]
  versym := none
  verdef := []
  hashTable := .sysv ⟨1, [1], [0, 0]⟩

/-- The list `soinfo_do_lookup` gets for a lookup in `sysvOnlyLib` alone. -/
def sysvOnlyList : SymbolLookupList := SymbolLookupList.ofSoinfo false sysvOnlyLib

theorem wellFormed_sysvOnlyList : ∀ lib ∈ sysvOnlyList.range, lib.si.WellFormed := by
  have hwf : sysvOnlyLib.WellFormed :=
    { strtab_nul := rfl
      stName_lt := by decide
      verdef_valid := by simp [sysvOnlyLib] }
  simpa [sysvOnlyList, SymbolLookupList.range, SymbolLookupList.ofSoinfo, Soinfo.getLookupLib_si]
    using hwf

/-- `soinfo_do_lookup` is the reference search on every list that the linker builds: its
dispatch sends the fast search only lists without a SysV-only library. -/
theorem soinfoDoLookup_eq_referenceLookup {list : SymbolLookupList} {lookupTracing : Bool}
    (hvalid : list.Valid lookupTracing) (hwf : ∀ lib ∈ list.range, lib.si.WellFormed)
    {name : List UInt8} (hname : 0 ∉ name) (hlen : name.length < 2 ^ 32 - 1)
    (vi : Option VersionInfo) :
    soinfoDoLookup name vi list = referenceLookup name vi (list.range.map SymbolLookupLib.si) := by
  unfold soinfoDoLookup
  split_ifs with hslow
  · exact soinfoDoLookupLoop_eq_referenceLookup true hname hlen vi list.range hvalid.lookupLib hwf
      (.inl rfl)
  · -- no slow path: `slow_path_count_` is zero, so no library is SysV-only
    have hcount : list.range.countP SymbolLookupLib.needsSysvLookup = 0 := by
      have h := hvalid.slowPathCount
      simp only [SymbolLookupList.needsSlowPath, decide_eq_true_eq, Nat.not_lt, Nat.le_zero] at hslow
      omega
    have hfast : ∀ lib ∈ list.range, lib.needsSysvLookup = false := by
      simpa [List.countP_eq_zero] using hcount
    exact soinfoDoLookupLoop_eq_referenceLookup false hname hlen vi list.range hvalid.lookupLib hwf
      (.inr hfast)

theorem soinfoDoLookup_eq_referenceLookup_sysvOnlyList :
    soinfoDoLookup [97] none sysvOnlyList =
      referenceLookup [97] none (sysvOnlyList.range.map SymbolLookupLib.si) :=
  @soinfoDoLookup_eq_referenceLookup _ _ (SymbolLookupList.valid_ofSoinfo false sysvOnlyLib)
    wellFormed_sysvOnlyList [97] (by decide) (by decide) none

end Bionic.Linker.SymbolLookup
