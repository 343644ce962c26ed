import Mathlib.Logic.Function.Basic
import Mathlib.Data.List.Basic
import Mathlib.Algebra.Order.Ring.Nat

/-!
# Processing one relocation

`process_relocation_impl<Mode>` applies one relocation of the object `si`. It reads the
relocation's type and symbol, looks the symbol up through `lookup_symbol`, and writes the target.
`JumpTable` and `Typical` are fast modes: they write only `R_GENERIC_JUMP_SLOT`, resp. the
absolute, `GLOB_DAT` and relative types, and hand every other relocation, the TLS ones first of
all, to `process_relocation_general`, which handles every type, text relocations and the
PC-relative symbol address of a weak undefined symbol.

`lookup_symbol` keeps a one-entry cache, keyed by `r_sym` (`cache_sym_val`, `0` at first) and
filled after a successful version lookup.

The model passes the relocator's state explicitly: the cache and the TLSDESC arguments it defers.
What the relocator reads and does not change (`RelocEnv`) is a parameter: the symbol table of
`si`, the lookups through its version tracker and lookup list, which are pure, and the functions
of the other objects and TLS modules it calls. A symbol name is its index in the string table.
An `async_safe_fatal` or a failed `CHECK` is `RelocFailure.fatal`; a `DL_ERR` followed by
`return false` is `RelocFailure.error` with the error. The statistics that the general mode counts
and the trace it logs are left out. `ElfW(Addr)` arithmetic is modulo `2 ^ 32` or `2 ^ 64`.

Main results:
- `processRelocationImpl_eq_general`: without text relocations, every mode gives, on every
  relocation and every relocator, the result, the write and the relocator of `General`;
- `lookupSymbol_transparent` and `relocateAll_cacheOk`: along every sequence of relocations of
  one relocator the cache holds the uncached lookup of its key, so every `lookup_symbol` returns
  what `lookup_version_info` and `soinfo_do_lookup` return without it.
-/

set_option autoImplicit false
set_option relaxedAutoImplicit false

namespace Bionic.Linker.Relocate

/-! ### Architectures -/

/-- The architectures the linker is built for. -/
inductive Arch where
  | arm
  | arm64
  | riscv64
  | x86
  | x86_64
  deriving DecidableEq, Repr

/-- The values of the `R_GENERIC_*` relocation types (`linker_relocs.h`); `R_GENERIC_NONE` is 0. -/
structure RelocTypes where
  jumpSlot : ℕ
  absolute : ℕ
  globDat : ℕ
  relative : ℕ
  irelative : ℕ
  copy : ℕ
  tlsDtpmod : ℕ
  tlsDtprel : ℕ
  tlsTprel : ℕ
  tlsdesc : ℕ

namespace Arch

/-- `R_GENERIC_*` of each architecture, from `elf_common.h` and `elf.h`. -/
def relocTypes : Arch → RelocTypes
  | .arm => ⟨22, 2, 21, 23, 160, 20, 17, 18, 19, 13⟩
  | .arm64 => ⟨1026, 257, 1025, 1027, 1032, 1024, 1029, 1028, 1030, 1031⟩
  | .riscv64 => ⟨5, 2, 2, 3, 58, 4, 7, 9, 11, 12⟩
  | .x86 => ⟨7, 1, 6, 8, 42, 5, 35, 36, 14, 41⟩
  | .x86_64 => ⟨7, 1, 6, 8, 37, 5, 16, 17, 18, 36⟩

/-- `__LP64__`; `USE_RELA` is defined exactly there. -/
def lp64 : Arch → Bool
  | .arm64 | .riscv64 | .x86_64 => true
  | .arm | .x86 => false

/-- The bits of an `ElfW(Addr)`. -/
def addrBits (arch : Arch) : ℕ := if arch.lp64 then 64 else 32

/-- `TLS_DTV_OFFSET`. -/
def tlsDtvOffset : Arch → ℕ
  | .riscv64 => 0x800
  | _ => 0

/-- `R_X86_64_PC32` and `R_386_PC32`: a weak undefined symbol gets the relocation's address. -/
def pc32 : Arch → Option ℕ
  | .x86 | .x86_64 => some 2
  | _ => none

/-- `R_X86_64_32`. -/
def abs32 : Arch → Option ℕ
  | .x86_64 => some 10
  | _ => none

/-- `ELFW(R_TYPE)(r_info)`. -/
def rType (arch : Arch) (info : ℕ) : ℕ := if arch.lp64 then info % 2 ^ 32 else info % 2 ^ 8

/-- `ELFW(R_SYM)(r_info)`. -/
def rSym (arch : Arch) (info : ℕ) : ℕ := if arch.lp64 then info / 2 ^ 32 else info / 2 ^ 8

end Arch

/-- `is_tls_reloc(type)`; every architecture defines `R_GENERIC_TLSDESC`. -/
def isTlsReloc (arch : Arch) (rType : ℕ) : Bool :=
  rType = arch.relocTypes.tlsDtpmod || rType = arch.relocTypes.tlsDtprel ||
    rType = arch.relocTypes.tlsTprel || rType = arch.relocTypes.tlsdesc

/-! ### Symbols, relocations and the relocator -/

/-- `ElfW(Sym)`: the fields the relocator reads. -/
structure ElfSym where
  stName : ℕ
  stInfo : ℕ
  stValue : ℕ
  deriving DecidableEq, Repr

/-- `ELF_ST_BIND(info)`. -/
def elfStBind (info : ℕ) : ℕ := info / 16

/-- `ELF_ST_TYPE(info)`. -/
def elfStType (info : ℕ) : ℕ := info % 16

/-- `STB_LOCAL`. -/
def stbLocal : ℕ := 0

/-- `STB_WEAK`. -/
def stbWeak : ℕ := 2

/-- `STT_SECTION`. -/
def sttSection : ℕ := 3

/-- `STT_TLS`. -/
def sttTls : ℕ := 6

/-- `STT_GNU_IFUNC`. -/
def sttGnuIfunc : ℕ := 10

/-- `rel_t`: `r_addend` is read only where `USE_RELA` is defined. -/
structure Rel where
  rOffset : ℕ
  rInfo : ℕ
  rAddend : ℕ
  deriving DecidableEq, Repr

/-- The modes of `process_relocation_impl`. -/
inductive RelocMode where
  | jumpTable
  | typical
  | general
  deriving DecidableEq, Repr

/-- `TlsDynamicResolverArg`. -/
structure TlsDynamicResolverArg where
  generation : ℕ
  moduleId : ℕ
  offset : ℕ
  deriving DecidableEq, Repr

/-- What the relocator reads and does not change; `σ` are the objects (`soinfo*`), `ν` the
version infos. -/
structure RelocEnv (σ ν : Type) where
  arch : Arch
  si : σ
  loadBias : ℕ
  symtab : ℕ → ElfSym
  /-- `si_strtab_size`. -/
  strtabSize : ℕ
  isLinker : Bool
  hasTextRelocations : Bool
  /-- `si->lookup_version_info(version_tracker, r_sym, ...)`: the `vi` it sets, `none` where it
  returns false. -/
  lookupVersionInfo : ℕ → Option (Option ν)
  /-- `soinfo_do_lookup(sym_name, vi, &found_in, lookup_list)`: `found_in` and the symbol. -/
  soinfoDoLookup : ℕ → Option ν → Option σ × Option ElfSym
  /-- `found_in->resolve_symbol_address(sym)`. -/
  resolveSymbolAddress : σ → ElfSym → ℕ
  /-- The `module_id` of `found_in->get_tls()`, `none` for a null `get_tls()`. -/
  tlsModuleId : σ → Option ℕ
  /-- `get_tls_module(module_id).static_offset`, `none` for `SIZE_MAX`. -/
  staticOffset : ℕ → Option ℕ
  /-- `get_tls_module(module_id).first_generation`. -/
  firstGeneration : ℕ → ℕ
  callIfuncResolver : ℕ → ℕ
  /-- Whether `phdr_table_protect_segments` and `phdr_table_unprotect_segments` succeed. -/
  protectOk : Bool
  unprotectOk : Bool
  /-- `relocator.tls_tp_base`. -/
  tlsTpBase : ℕ

/-- The fields of a `Relocator` that relocations change: the one-entry symbol cache and the
TLSDESC relocations deferred until `tlsdesc_args_` is final. -/
structure Relocator (σ : Type) where
  cacheSymVal : ℕ
  cacheSym : Option ElfSym
  cacheSi : Option σ
  tlsdescArgs : List TlsDynamicResolverArg
  deferredTlsdescRelocs : List (ℕ × ℕ)

/-- The errors `process_relocation_impl` reports before it returns false. -/
inductive RelocError where
  /-- `cannot find verneed/verdef for version index=... referenced by symbol "..."`. -/
  | versionNotFound (symName : ℕ)
  /-- `cannot locate symbol "..." referenced by "..."...`. -/
  | cannotLocateSymbol (symName : ℕ)
  /-- `unexpected TLS reference to local section in "...": sym type ..., rel type ...`. -/
  | tlsLocalSection (symType rType : ℕ)
  /-- `unexpected TLS reference to local symbol "..." in "...": sym type ..., rel type ...`. -/
  | tlsLocalSymbol (symName symType rType : ℕ)
  /-- `TLS relocation refers to symbol "..." in solib "..." with no TLS segment`. -/
  | tlsNoSegment (symName : Option ℕ)
  /-- `reference to non-TLS symbol "..." from TLS relocation in "..."`. -/
  | nonTlsSymbol (symName : ℕ)
  /-- `can't protect segments for "..."`. -/
  | protectSegments
  /-- `can't unprotect loadable segments for "..."`. -/
  | unprotectSegments
  /-- `... COPY relocations are not supported`. -/
  | copyRelocation
  /-- `TLS symbol "..." in dlopened "..." referenced from "..." using IE access model`. -/
  | tlsInitialExecDlopened (symName : ℕ)
  /-- `unknown reloc type ... in "..."`. -/
  | unknownRelocType (rType : ℕ)
  deriving DecidableEq, Repr

/-- How a relocation fails. -/
inductive RelocFailure where
  /-- `async_safe_fatal`, a failed `CHECK`, or a null `found_in` dereferenced. -/
  | fatal
  /-- `DL_ERR` and `return false`. -/
  | error (e : RelocError)
  deriving DecidableEq, Repr

/-- The resolver a TLS descriptor gets. -/
inductive TlsDescFunc where
  | unresolvedWeak
  | static
  deriving DecidableEq, Repr

/-- A store into the relocation's target. -/
inductive RelocWrite where
  /-- `*static_cast<ElfW(Addr)*>(rel_target) = value`. -/
  | addr (target value : ℕ)
  /-- `*static_cast<Elf32_Addr*>(rel_target) = value`. -/
  | addr32 (target value : ℕ)
  /-- `desc->func = func; desc->arg = arg`. -/
  | tlsDesc (target : ℕ) (func : TlsDescFunc) (arg : ℕ)
  deriving DecidableEq, Repr

/-- What a step of the relocator returns: a value and the relocator after it. -/
abbrev RelocResult (σ α : Type) := Except RelocFailure (α × Relocator σ)

/-! ### `lookup_symbol` -/

section Lookup

variable {σ ν : Type} (env : RelocEnv σ ν)

/-- `lookup_symbol` up to its weak check: the cached entry when `r_sym` is the key, else the
version lookup and `soinfo_do_lookup`, stored in the cache. -/
def lookupCached (rSym symName : ℕ) (st : Relocator σ) : RelocResult σ (Option σ × Option ElfSym) :=
  if rSym = st.cacheSymVal then .ok ((st.cacheSi, st.cacheSym), st)
  else
    match env.lookupVersionInfo rSym with
    | none => .error (.error (.versionNotFound symName))
    | some vi =>
      let found := env.soinfoDoLookup symName vi
      .ok (found, { st with cacheSymVal := rSym, cacheSi := found.1, cacheSym := found.2 })

/-- The weak check of `lookup_symbol`: a symbol not found must be weak. -/
def weakCheck (rSym symName : ℕ) (found : Option σ × Option ElfSym) :
    Except RelocFailure (Option σ × Option ElfSym) :=
  if found.2 = none ∧ elfStBind (env.symtab rSym).stInfo ≠ stbWeak then
    .error (.error (.cannotLocateSymbol symName))
  else .ok found

/-- `lookup_symbol(relocator, r_sym, sym_name, &found_in, &sym)`. -/
def lookupSymbol (rSym symName : ℕ) (st : Relocator σ) : RelocResult σ (Option σ × Option ElfSym) :=
  match lookupCached env rSym symName st with
  | .error e => .error e
  | .ok (found, st) => (weakCheck env rSym symName found).map fun found ↦ (found, st)

/-- The lookup without the cache: `lookup_version_info`, `soinfo_do_lookup` and the weak check. -/
def lookupUncached (rSym symName : ℕ) : Except RelocFailure (Option σ × Option ElfSym) :=
  match env.lookupVersionInfo rSym with
  | none => .error (.error (.versionNotFound symName))
  | some vi => weakCheck env rSym symName (env.soinfoDoLookup symName vi)

end Lookup

/-! ### `process_relocation_impl` -/

section Process

variable {σ ν : Type} [DecidableEq σ] (env : RelocEnv σ ν) (mem : ℕ → ℕ)

/-- `a - b` in `ElfW(Addr)`. -/
def subAddr (arch : Arch) (a b : ℕ) : ℕ :=
  (a % 2 ^ arch.addrBits + (2 ^ arch.addrBits - b % 2 ^ arch.addrBits)) % 2 ^ arch.addrBits

/-- `get_addend_rel()`: `r_addend`, or without RELA the word at the target. -/
def getAddendRel (reloc : Rel) (target : ℕ) : ℕ :=
  if env.arch.lp64 then reloc.rAddend else mem target

/-- `get_addend_norel()`: `r_addend`, or without RELA zero. -/
def getAddendNorel (reloc : Rel) : ℕ := if env.arch.lp64 then reloc.rAddend else 0

/-- `handle_text_relocs`: only `General` on a 32-bit object with text relocations. -/
def handleTextRelocs (mode : RelocMode) : Bool :=
  mode = .general && !env.arch.lp64 && env.hasTextRelocations

/-- `sym_addr` of a symbol found by a relocation that is not TLS: `resolve_symbol_address`,
with the segments made executable around it for an ifunc of `si` in a text-relocated object. -/
def resolvedAddress (mode : RelocMode) (foundIn : Option σ) (sym : ElfSym) :
    Except RelocFailure ℕ :=
  let shouldProtect := handleTextRelocs env mode && foundIn = some env.si &&
    elfStType sym.stInfo = sttGnuIfunc
  if shouldProtect && !env.protectOk then .error (.error .protectSegments)
  else
    match foundIn with
    | none => .error .fatal
    | some f =>
      if shouldProtect && !env.unprotectOk then .error (.error .unprotectSegments)
      else .ok (env.resolveSymbolAddress f sym)

/-- `sym_addr` of a relocation that is not TLS, once its symbol is looked up. A weak undefined
symbol has address zero, but `General` gives it the relocation's address for the PC-relative
types, so that the value written is zero. -/
def symbolAddress (mode : RelocMode) (rType target : ℕ) (foundIn : Option σ) :
    Option ElfSym → Except RelocFailure ℕ
  | some sym => resolvedAddress env mode foundIn sym
  | none => .ok (if mode = .general ∧ env.arch.pc32 = some rType then target else 0)

/-- The symbol of a relocation that is not TLS: `found_in`, `sym` and `sym_addr`. -/
def symbolLookup (mode : RelocMode) (rType rSym target : ℕ) (st : Relocator σ) :
    RelocResult σ (Option σ × Option ElfSym × ℕ) :=
  if rSym = 0 then .ok ((none, none, 0), st)
  else
    match lookupSymbol env rSym (env.symtab rSym).stName st with
    | .error e => .error e
    | .ok ((foundIn, sym), st) =>
      (symbolAddress env mode rType target foundIn sym).map fun addr ↦ ((foundIn, sym, addr), st)

/-- The symbol of a TLS relocation in `General`: the current module for `r_sym == 0`, an error
for a local symbol, else `lookup_symbol`; then the checks of its TLS segment and type. -/
def tlsLookup (rType rSym : ℕ) (st : Relocator σ) : RelocResult σ (Option σ × Option ElfSym × ℕ) :=
  let symName := (env.symtab rSym).stName
  let looked : RelocResult σ (Option σ × Option ElfSym) :=
    if rSym = 0 then .ok ((some env.si, none), st)
    else if elfStBind (env.symtab rSym).stInfo = stbLocal then
      let symType := elfStType (env.symtab rSym).stInfo
      if symType = sttSection then .error (.error (.tlsLocalSection symType rType))
      else .error (.error (.tlsLocalSymbol symName symType rType))
    else lookupSymbol env rSym symName st
  match looked with
  | .error e => .error e
  | .ok ((foundIn, sym), st) =>
    if (foundIn.map env.tlsModuleId) = some none then
      .error (.error (.tlsNoSegment (if rSym = 0 then none else some symName)))
    else
      match sym with
      | none => .ok ((foundIn, none, 0), st)
      | some s =>
        if elfStType s.stInfo ≠ sttTls then .error (.error (.nonTlsSymbol symName))
        else .ok ((foundIn, some s, s.stValue), st)

/-- The writes of the fast paths: `R_GENERIC_JUMP_SLOT` in `JumpTable` and `General`, the
absolute, `GLOB_DAT` and relative types in `Typical` and `General`; `none` for a type the mode
leaves to what follows. -/
def fastWrite (mode : RelocMode) (reloc : Rel) (rType target symAddr : ℕ) : Option RelocWrite :=
  let types := env.arch.relocTypes
  let m := 2 ^ env.arch.addrBits
  if (mode = .general ∨ mode = .jumpTable) ∧ rType = types.jumpSlot then
    some (.addr target ((symAddr + getAddendNorel env reloc) % m))
  else if (mode = .general ∨ mode = .typical) ∧ rType = types.absolute then
    some (.addr target ((symAddr + getAddendRel env mem reloc target) % m))
  else if (mode = .general ∨ mode = .typical) ∧ rType = types.globDat then
    some (.addr target ((symAddr + getAddendNorel env reloc) % m))
  else if (mode = .general ∨ mode = .typical) ∧ rType = types.relative then
    some (.addr target ((env.loadBias + getAddendRel env mem reloc target) % m))
  else none

/-- The TLS module of `found_in`: `CHECK(found_in->get_tls() != nullptr)`. -/
def foundTlsModule (f : σ) : Except RelocFailure ℕ :=
  match env.tlsModuleId f with
  | none => .error .fatal
  | some moduleId => .ok moduleId

/-- `R_GENERIC_TLSDESC` on arm64: a descriptor written now, or a dynamic one deferred. -/
def tlsdescReloc (reloc : Rel) (target : ℕ) (foundIn : Option σ) (symAddr : ℕ)
    (st : Relocator σ) : RelocResult σ (Option RelocWrite) :=
  let m := 2 ^ env.arch.addrBits
  let addend := reloc.rAddend
  match foundIn with
  | none => .ok (some (.tlsDesc target .unresolvedWeak addend), st)
  | some f =>
    match foundTlsModule env f with
    | .error e => .error e
    | .ok moduleId =>
      match env.staticOffset moduleId with
      | some offset =>
        .ok (some (.tlsDesc target .static
          ((subAddr env.arch offset env.tlsTpBase + symAddr + addend) % m)), st)
      | none =>
        .ok (none, { st with
          tlsdescArgs := st.tlsdescArgs ++
            [⟨env.firstGeneration moduleId, moduleId, (symAddr + addend) % m⟩]
          deferredTlsdescRelocs := st.deferredTlsdescRelocs ++ [(target, st.tlsdescArgs.length)] })

/-- The `switch (r_type)` of `General` for the types the fast paths do not write. -/
def generalSwitch (reloc : Rel) (rType target : ℕ) (foundIn : Option σ) (symAddr symName : ℕ)
    (st : Relocator σ) : RelocResult σ (Option RelocWrite) :=
  let types := env.arch.relocTypes
  let m := 2 ^ env.arch.addrBits
  let handleText := handleTextRelocs env .general
  if rType = types.irelative then
    -- the linker's own ifuncs were called before, and are not called again
    if env.isLinker then .ok (none, st)
    else if handleText && !env.protectOk then .error (.error .protectSegments)
    else
      let result := env.callIfuncResolver ((env.loadBias + getAddendRel env mem reloc target) % m)
      if handleText && !env.unprotectOk then .error (.error .unprotectSegments)
      else .ok (some (.addr target result), st)
  else if rType = types.copy then .error (.error .copyRelocation)
  else if rType = types.tlsTprel then
    let tpoff : Except RelocFailure ℕ :=
      match foundIn with
      -- an unresolved weak relocation resolves to the thread pointer
      | none => .ok 0
      | some f =>
        match foundTlsModule env f with
        | .error e => .error e
        | .ok moduleId =>
          match env.staticOffset moduleId with
          | some offset => .ok (subAddr env.arch offset env.tlsTpBase)
          | none => .error (.error (.tlsInitialExecDlopened symName))
    tpoff.map fun tpoff ↦
      (some (.addr target ((tpoff + symAddr + getAddendRel env mem reloc target) % m)), st)
  else if rType = types.tlsDtpmod then
    let moduleId : Except RelocFailure ℕ :=
      match foundIn with
      | none => .ok 0
      | some f =>
        match foundTlsModule env f with
        | .error e => .error e
        -- `CHECK(module_id != kTlsUninitializedModuleId)`
        | .ok moduleId => if moduleId = 0 then .error .fatal else .ok moduleId
    moduleId.map fun moduleId ↦ (some (.addr target moduleId), st)
  else if rType = types.tlsDtprel then
    .ok (some (.addr target (subAddr env.arch (symAddr + getAddendRel env mem reloc target)
      env.arch.tlsDtvOffset)), st)
  else if env.arch = .arm64 ∧ rType = types.tlsdesc then
    tlsdescReloc env reloc target foundIn symAddr st
  else if env.arch.abs32 = some rType then
    .ok (some (.addr32 target ((symAddr + reloc.rAddend) % 2 ^ 32)), st)
  else if env.arch = .x86_64 ∧ env.arch.pc32 = some rType then
    .ok (some (.addr32 target (subAddr env.arch (symAddr + reloc.rAddend) target % 2 ^ 32)), st)
  else if env.arch = .x86 ∧ env.arch.pc32 = some rType then
    .ok (some (.addr target (subAddr env.arch (symAddr + getAddendRel env mem reloc target)
      target)), st)
  else .error (.error (.unknownRelocType rType))

/-- The body of `process_relocation_impl<Mode>`; `fallback` is `process_relocation_general` on
the relocator at the point of the call. -/
def processRelocationBody (mode : RelocMode)
    (fallback : Relocator σ → RelocResult σ (Option RelocWrite)) (reloc : Rel)
    (st : Relocator σ) : RelocResult σ (Option RelocWrite) :=
  let target := (reloc.rOffset + env.loadBias) % 2 ^ env.arch.addrBits
  let rType := env.arch.rType reloc.rInfo
  let rSym := env.arch.rSym reloc.rInfo
  let symName := (env.symtab rSym).stName
  -- `get_string`'s bounds check
  if rSym ≠ 0 ∧ env.strtabSize ≤ symName then .error .fatal
  -- `R_GENERIC_NONE`
  else if rType = 0 then .ok (none, st)
  else if mode ≠ .general ∧ isTlsReloc env.arch rType then fallback st
  else
    let looked :=
      if mode = .general ∧ isTlsReloc env.arch rType then tlsLookup env rType rSym st
      else symbolLookup env mode rType rSym target st
    match looked with
    | .error e => .error e
    | .ok ((foundIn, _, symAddr), st) =>
      match fastWrite env mem mode reloc rType target symAddr with
      | some w => .ok (some w, st)
      | none =>
        if mode ≠ .general then fallback st
        else generalSwitch env mem reloc rType target foundIn symAddr symName st

/-- `process_relocation_general(relocator, reloc)`; `General` never calls its fallback. -/
def processRelocationGeneral (reloc : Rel) (st : Relocator σ) : RelocResult σ (Option RelocWrite) :=
  processRelocationBody env mem .general (fun _ ↦ .error .fatal) reloc st

/-- `process_relocation_impl<Mode>(relocator, reloc)`. -/
def processRelocationImpl (mode : RelocMode) (reloc : Rel) (st : Relocator σ) :
    RelocResult σ (Option RelocWrite) :=
  processRelocationBody env mem mode (processRelocationGeneral env mem reloc) reloc st

end Process

/-- A fresh relocator: the cache key `0` with null entries. -/
def freshRelocator {σ : Type} : Relocator σ := ⟨0, none, none, [], []⟩

/-- An x86-64 object without text relocations whose symbols all resolve to `0x40`. -/
def sampleRelocEnv : RelocEnv ℕ Unit where
  arch := .x86_64
  si := 0
  loadBias := 0x10000
  symtab := fun _ ↦ ⟨1, 0x12, 0x40⟩
  strtabSize := 16
  isLinker := false
  hasTextRelocations := false
  lookupVersionInfo := fun _ ↦ some ()
  soinfoDoLookup := fun _ _ ↦ (some 1, some ⟨1, 0x12, 0x40⟩)
  resolveSymbolAddress := fun _ sym ↦ sym.stValue
  tlsModuleId := fun _ ↦ none
  staticOffset := fun _ ↦ none
  firstGeneration := fun _ ↦ 0
  callIfuncResolver := id
  protectOk := true
  unprotectOk := true
  tlsTpBase := 0

/-! ### The types of each architecture -/

namespace Arch

theorem pc32_ne {arch : Arch} {t : ℕ} (h : arch.pc32 = some t) :
    t ≠ arch.relocTypes.jumpSlot ∧ t ≠ arch.relocTypes.absolute ∧
      t ≠ arch.relocTypes.globDat ∧ t ≠ arch.relocTypes.relative := by
  cases arch <;> simp only [pc32, reduceCtorEq, Option.some.injEq] at h <;> subst h <;> decide

theorem jumpSlot_ne (arch : Arch) :
    arch.relocTypes.jumpSlot ≠ arch.relocTypes.absolute ∧
      arch.relocTypes.jumpSlot ≠ arch.relocTypes.globDat ∧
      arch.relocTypes.jumpSlot ≠ arch.relocTypes.relative := by
  cases arch <;> decide

end Arch

/-! ### What a lookup returns -/

section LookupSpec

variable {σ ν : Type} {env : RelocEnv σ ν}

theorem weakCheck_ok {rSym symName : ℕ} {found x : Option σ × Option ElfSym}
    (h : weakCheck env rSym symName found = .ok x) : x = found := by
  unfold weakCheck at h
  split at h <;> cases h
  rfl

/-- A successful `lookup_symbol` leaves the cache keyed by `r_sym`, holding what it returned,
and the rest of the relocator as it was. -/
theorem lookupCached_ok {rSym symName : ℕ} {st st1 : Relocator σ}
    {found : Option σ × Option ElfSym} (h : lookupCached env rSym symName st = .ok (found, st1)) :
    st1.cacheSymVal = rSym ∧ (st1.cacheSi, st1.cacheSym) = found ∧
      st1.tlsdescArgs = st.tlsdescArgs ∧ st1.deferredTlsdescRelocs = st.deferredTlsdescRelocs := by
  unfold lookupCached at h
  split at h
  · -- a hit returns the cached entry and the relocator unchanged
    rename_i hhit
    cases h
    exact ⟨hhit.symm, rfl, rfl, rfl⟩
  · split at h
    · cases h
    · cases h
      exact ⟨rfl, rfl, rfl, rfl⟩

theorem lookupCached_idem {rSym symName symName' : ℕ} {st st1 : Relocator σ}
    {found : Option σ × Option ElfSym} (h : lookupCached env rSym symName st = .ok (found, st1)) :
    lookupCached env rSym symName' st1 = .ok (found, st1) := by
  obtain ⟨hkey, hval, -⟩ := lookupCached_ok h
  simp [lookupCached, hkey, hval]

theorem lookupSymbol_ok {rSym symName : ℕ} {st st1 : Relocator σ}
    {x : Option σ × Option ElfSym} (h : lookupSymbol env rSym symName st = .ok (x, st1)) :
    lookupCached env rSym symName st = .ok (x, st1) ∧ weakCheck env rSym symName x = .ok x := by
  unfold lookupSymbol at h
  split at h
  · cases h
  · rename_i found st2 hcached
    cases hweak : weakCheck env rSym symName found with
    | error e => simp [hweak, Except.map] at h
    | ok y =>
      simp only [hweak, Except.map, Except.ok.injEq, Prod.mk.injEq] at h
      obtain ⟨rfl, rfl⟩ := h
      obtain rfl := weakCheck_ok hweak
      exact ⟨hcached, hweak⟩

theorem lookupSymbol_idem {rSym symName : ℕ} {st st1 : Relocator σ}
    {x : Option σ × Option ElfSym} (h : lookupSymbol env rSym symName st = .ok (x, st1)) :
    lookupSymbol env rSym symName st1 = .ok (x, st1) := by
  obtain ⟨hcached, hweak⟩ := lookupSymbol_ok h
  simp [lookupSymbol, lookupCached_idem hcached, hweak, Except.map]

end LookupSpec

/-! ### The fast modes against `General` -/

section Modes

variable {σ ν : Type} [DecidableEq σ] {env : RelocEnv σ ν} {mem : ℕ → ℕ}

omit [DecidableEq σ] in
theorem handleTextRelocs_eq_false (hnotext : env.hasTextRelocations = false) (mode : RelocMode) :
    handleTextRelocs env mode = false := by
  simp [handleTextRelocs, hnotext]

theorem resolvedAddress_of_not_text (hnotext : env.hasTextRelocations = false) (mode : RelocMode)
    (foundIn : Option σ) (sym : ElfSym) :
    resolvedAddress env mode foundIn sym = resolvedAddress env .general foundIn sym := by
  simp [resolvedAddress, handleTextRelocs_eq_false hnotext]

/-- The modes agree on the address of every symbol but the weak undefined one of a PC-relative
relocation. -/
theorem symbolAddress_of_not_pc32 (hnotext : env.hasTextRelocations = false) {rType : ℕ}
    (hpc : env.arch.pc32 ≠ some rType) (mode : RelocMode) (target : ℕ) (foundIn : Option σ)
    (sym : Option ElfSym) :
    symbolAddress env mode rType target foundIn sym =
      symbolAddress env .general rType target foundIn sym := by
  cases sym with
  | none => simp [symbolAddress, hpc]
  | some s => exact resolvedAddress_of_not_text hnotext mode foundIn s

theorem symbolLookup_of_not_pc32 (hnotext : env.hasTextRelocations = false) {rType : ℕ}
    (hpc : env.arch.pc32 ≠ some rType) (mode : RelocMode) (rSym target : ℕ) (st : Relocator σ) :
    symbolLookup env mode rType rSym target st = symbolLookup env .general rType rSym target st := by
  simp only [symbolLookup, symbolAddress_of_not_pc32 hnotext hpc]

/-- A lookup that fails, fails the same way in every mode: the weak undefined symbol, where the
modes differ, is not an error. -/
theorem symbolLookup_error (hnotext : env.hasTextRelocations = false) {mode : RelocMode}
    {rType rSym target : ℕ} {st : Relocator σ} {e : RelocFailure}
    (h : symbolLookup env mode rType rSym target st = .error e) (mode' : RelocMode) :
    symbolLookup env mode' rType rSym target st = .error e := by
  unfold symbolLookup at h ⊢
  split at h
  · cases h
  · rw [if_neg ‹_›]
    split at h
    · cases h; simp_all
    · rename_i foundIn sym st1 hlook
      cases sym with
      | none => simp [symbolAddress, Except.map] at h
      | some s =>
        simp only [symbolAddress, resolvedAddress_of_not_text hnotext mode] at h
        simpa [symbolAddress, resolvedAddress_of_not_text hnotext mode'] using h

/-- A successful lookup left the relocator as it was, for `r_sym == 0`, or as `lookup_symbol`
left it. -/
theorem symbolLookup_ok {mode : RelocMode} {rType rSym target : ℕ} {st st1 : Relocator σ}
    {y : Option σ × Option ElfSym × ℕ} (h : symbolLookup env mode rType rSym target st = .ok (y, st1)) :
    (rSym = 0 ∧ st1 = st) ∨
      (rSym ≠ 0 ∧ ∃ x, lookupSymbol env rSym (env.symtab rSym).stName st = .ok (x, st1)) := by
  unfold symbolLookup at h
  split at h
  · cases h
    exact .inl ⟨‹_›, rfl⟩
  · split at h
    · cases h
    · rename_i foundIn sym st2 hlook
      refine .inr ⟨‹_›, (foundIn, sym), ?_⟩
      cases haddr : symbolAddress env mode rType target foundIn sym <;> simp_all [Except.map]

theorem symbolLookup_idem {mode mode' : RelocMode} {rType rSym target : ℕ} {st st1 : Relocator σ}
    {y : Option σ × Option ElfSym × ℕ} (h : symbolLookup env mode rType rSym target st = .ok (y, st1)) :
    symbolLookup env mode' rType rSym target st1 = symbolLookup env mode' rType rSym target st := by
  rcases symbolLookup_ok h with ⟨-, rfl⟩ | ⟨h0, x, hlook⟩
  · rfl
  · simp only [symbolLookup, if_neg h0, lookupSymbol_idem hlook, hlook]

omit [DecidableEq σ] in
theorem fastWrite_general {mode : RelocMode} {reloc : Rel} {rType target symAddr : ℕ}
    {w : RelocWrite} (h : fastWrite env mem mode reloc rType target symAddr = some w) :
    fastWrite env mem .general reloc rType target symAddr = some w := by
  obtain ⟨hja, hjg, hjr⟩ := env.arch.jumpSlot_ne
  cases mode with
  | general => exact h
  | jumpTable =>
    simp only [fastWrite, reduceCtorEq, or_true, true_or, true_and, false_or, false_and, if_false] at h ⊢
    split_ifs at h with hj
    rw [if_pos hj]
    exact h
  | typical =>
    simp only [fastWrite, reduceCtorEq, or_true, true_or, true_and, false_or, false_and, if_false] at h ⊢
    -- a type the typical mode writes is not the jump slot, which it leaves to `General`
    split_ifs at h with ha hg hr
    · rw [if_neg (ha ▸ hja.symm), if_pos ha]
      exact h
    · rw [if_neg (hg ▸ hjg.symm), if_neg ha, if_pos hg]
      exact h
    · rw [if_neg (hr ▸ hjr.symm), if_neg ha, if_neg hg, if_pos hr]
      exact h

omit [DecidableEq σ] in
theorem fastWrite_pc32 {mode : RelocMode} (hmode : mode ≠ .general) {rType : ℕ}
    (hpc : env.arch.pc32 = some rType) (reloc : Rel) (target symAddr : ℕ) :
    fastWrite env mem mode reloc rType target symAddr = none := by
  obtain ⟨hj, ha, hg, hr⟩ := Arch.pc32_ne hpc
  simp [fastWrite, hmode, hj, ha, hg, hr]

theorem processRelocationGeneral_of_lookup {reloc : Rel} {mode : RelocMode} {st st1 : Relocator σ}
    {y : Option σ × Option ElfSym × ℕ} (hnone : env.arch.rType reloc.rInfo ≠ 0)
    (htls : isTlsReloc env.arch (env.arch.rType reloc.rInfo) = false)
    (h : symbolLookup env mode (env.arch.rType reloc.rInfo) (env.arch.rSym reloc.rInfo)
      ((reloc.rOffset + env.loadBias) % 2 ^ env.arch.addrBits) st = .ok (y, st1)) :
    processRelocationGeneral env mem reloc st1 = processRelocationGeneral env mem reloc st := by
  simp only [processRelocationGeneral, processRelocationBody, htls, Bool.false_eq_true, and_false,
    if_false, if_neg hnone, symbolLookup_idem h]

/-- A fast mode gives, without text relocations, what `General` gives: the fast paths write what
`General` writes, a weak undefined symbol differs only for the PC-relative types, which the fast
modes leave to `General`, and the fallback's second lookup hits the cache the first one left. -/
theorem processRelocationImpl_fast (hnotext : env.hasTextRelocations = false) {mode : RelocMode}
    (hmode : mode ≠ .general) (reloc : Rel) (st : Relocator σ) :
    processRelocationImpl env mem mode reloc st = processRelocationGeneral env mem reloc st := by
  unfold processRelocationImpl
  unfold processRelocationBody
  simp only [hmode, ne_eq, not_false_eq_true, true_and, false_and, if_false]
  split_ifs with hstr hnone htls
  · simp only [processRelocationGeneral, processRelocationBody, if_pos hstr]
  · simp only [processRelocationGeneral, processRelocationBody, if_neg hstr, if_pos hnone]
  · rfl
  -- the relocations a fast mode looks up itself
  have htls' : isTlsReloc env.arch (env.arch.rType reloc.rInfo) = false := by simpa using htls
  conv_rhs => simp only [processRelocationGeneral, processRelocationBody, if_neg hstr, if_neg hnone,
    htls', Bool.false_eq_true, and_false, if_false]
  by_cases hpc : env.arch.pc32 = some (env.arch.rType reloc.rInfo)
  · -- `General` may write here what a fast mode cannot: the fast mode falls back
    cases hlook : symbolLookup env mode (env.arch.rType reloc.rInfo) (env.arch.rSym reloc.rInfo)
      ((reloc.rOffset + env.loadBias) % 2 ^ env.arch.addrBits) st with
    | error e => simp [symbolLookup_error hnotext hlook]
    | ok r =>
      obtain ⟨⟨foundIn, sym, symAddr⟩, st1⟩ := r
      simp only [fastWrite_pc32 hmode hpc]
      rw [processRelocationGeneral_of_lookup hnone htls' hlook]
      simp only [processRelocationGeneral, processRelocationBody, if_neg hstr, if_neg hnone,
        htls', Bool.false_eq_true, and_false, if_false]
  · rw [symbolLookup_of_not_pc32 hnotext hpc]
    cases hlook : symbolLookup env .general (env.arch.rType reloc.rInfo) (env.arch.rSym reloc.rInfo)
      ((reloc.rOffset + env.loadBias) % 2 ^ env.arch.addrBits) st with
    | error e => rfl
    | ok r =>
      obtain ⟨⟨foundIn, sym, symAddr⟩, st1⟩ := r
      dsimp only
      cases hw : fastWrite env mem mode reloc (env.arch.rType reloc.rInfo)
        ((reloc.rOffset + env.loadBias) % 2 ^ env.arch.addrBits) symAddr with
      | some w => rw [fastWrite_general hw]
      | none =>
        rw [processRelocationGeneral_of_lookup hnone htls' hlook]
        simp only [processRelocationGeneral, processRelocationBody, if_neg hstr, if_neg hnone,
          htls', Bool.false_eq_true, and_false, if_false, hlook]

theorem processRelocationImpl_general (reloc : Rel) (st : Relocator σ) :
    processRelocationImpl env mem .general reloc st = processRelocationGeneral env mem reloc st :=
  -- `General` never reaches its fallback
  rfl

/-- Without text relocations, every mode gives on every relocation and every relocator the
result, the write and the relocator `process_relocation_general` gives. -/
theorem processRelocationImpl_eq_general (hnotext : env.hasTextRelocations = false)
    (mode : RelocMode) (reloc : Rel) (st : Relocator σ) :
    processRelocationImpl env mem mode reloc st = processRelocationGeneral env mem reloc st := by
  by_cases hmode : mode = .general
  · subst hmode
    exact processRelocationImpl_general reloc st
  · exact processRelocationImpl_fast hnotext hmode reloc st

end Modes

/-- `R_X86_64_JUMP_SLOT` of symbol 1 in `Typical`, which falls back to `General`. -/
theorem processRelocationImpl_eq_general_jumpSlot :
    sampleRelocEnv.hasTextRelocations = false ∧
      processRelocationImpl sampleRelocEnv (fun _ ↦ 0) .typical ⟨0x2000, 2 ^ 32 + 7, 0⟩
          freshRelocator =
        processRelocationGeneral sampleRelocEnv (fun _ ↦ 0) ⟨0x2000, 2 ^ 32 + 7, 0⟩
          freshRelocator :=
  ⟨rfl, processRelocationImpl_eq_general rfl .typical _ _⟩

/-! ### Sequences of relocations -/

section Run

variable {σ ν : Type} [DecidableEq σ] (env : RelocEnv σ ν)

/-- `process_relocation<Mode>`: `General` calls `process_relocation_general`, the fast modes
`process_relocation_impl<Mode>`. -/
def processRelocation (mem : ℕ → ℕ) (mode : RelocMode) (reloc : Rel) (st : Relocator σ) :
    RelocResult σ (Option RelocWrite) :=
  if mode = .general then processRelocationGeneral env mem reloc st
  else processRelocationImpl env mem mode reloc st

/-- The loops of `plain_relocate_impl` and `packed_relocate_impl` over the relocations of one
relocator, each with the mode its table is processed in, stopping at the first that fails; `store`
is how a write changes the words a later relocation reads. -/
def relocateAll (store : (ℕ → ℕ) → RelocWrite → ℕ → ℕ) :
    List (RelocMode × Rel) → (ℕ → ℕ) → Relocator σ → Except RelocFailure ((ℕ → ℕ) × Relocator σ)
  | [], mem, st => .ok (mem, st)
  | (mode, reloc) :: relocs, mem, st =>
    match processRelocation env mem mode reloc st with
    | .error e => .error e
    | .ok (w, st) => relocateAll store relocs (w.elim mem (store mem)) st

end Run

/-! ### The symbol cache -/

section Cache

variable {σ ν : Type} [DecidableEq σ] (env : RelocEnv σ ν)

/-- The cache holds what an uncached lookup of its key finds: the key is `0`, which no lookup
uses, or the version lookup of the key succeeds and `soinfo_do_lookup` of the key's name returns
the cached pair. -/
def CacheOk (st : Relocator σ) : Prop :=
  st.cacheSymVal = 0 ∨ ∃ vi, env.lookupVersionInfo st.cacheSymVal = some vi ∧
    env.soinfoDoLookup (env.symtab st.cacheSymVal).stName vi = (st.cacheSi, st.cacheSym)

/-- Two relocators with the same cache. -/
def SameCache (st st1 : Relocator σ) : Prop :=
  st1.cacheSymVal = st.cacheSymVal ∧ st1.cacheSi = st.cacheSi ∧ st1.cacheSym = st.cacheSym

variable {env}

omit [DecidableEq σ] in
theorem CacheOk.of_sameCache {st st1 : Relocator σ} (hst : CacheOk env st)
    (h : SameCache st st1) : CacheOk env st1 := by
  obtain ⟨hk, hsi, hsym⟩ := h
  simpa only [CacheOk, hk, hsi, hsym] using hst

omit [DecidableEq σ] in
theorem cacheOk_fresh : CacheOk env (freshRelocator : Relocator σ) := .inl rfl

omit [DecidableEq σ] in
/-- `lookup_symbol` keeps the cache right: a hit leaves it, and a miss stores the key only after
its version lookup succeeded. -/
theorem lookupSymbol_cacheOk {rSym : ℕ} {st st1 : Relocator σ} {x : Option σ × Option ElfSym}
    (hst : CacheOk env st) (h : lookupSymbol env rSym (env.symtab rSym).stName st = .ok (x, st1)) :
    CacheOk env st1 := by
  obtain ⟨hcached, -⟩ := lookupSymbol_ok h
  unfold lookupCached at hcached
  split at hcached
  · cases hcached
    exact hst
  · split at hcached
    · cases hcached
    · rename_i vi hvi
      cases hcached
      exact .inr ⟨vi, hvi, rfl⟩

omit [DecidableEq σ] in
/-- In a relocator whose cache is right, `lookup_symbol` returns what the uncached lookup
returns, for every `r_sym` but `0`, the only one no call site passes. -/
theorem lookupSymbol_transparent {rSym : ℕ} {st : Relocator σ} (hst : CacheOk env st)
    (hr : rSym ≠ 0) :
    (lookupSymbol env rSym (env.symtab rSym).stName st).map Prod.fst =
      lookupUncached env rSym (env.symtab rSym).stName := by
  unfold lookupSymbol lookupCached lookupUncached
  by_cases hhit : rSym = st.cacheSymVal
  · -- a hit: the key is not `0`, so the cache holds the uncached lookup of it
    rcases hst with h0 | ⟨vi, hvi, hfound⟩
    · exact absurd (hhit.trans h0) hr
    · subst hhit
      simp only [hvi, hfound, ite_true]
      cases weakCheck env st.cacheSymVal _ (st.cacheSi, st.cacheSym) <;> rfl
  · simp only [if_neg hhit]
    cases env.lookupVersionInfo rSym with
    | none => rfl
    | some vi =>
      dsimp only
      cases weakCheck env rSym _ (env.soinfoDoLookup _ vi) <;> rfl

theorem symbolLookup_cacheOk {mode : RelocMode} {rType rSym target : ℕ} {st st1 : Relocator σ}
    {y : Option σ × Option ElfSym × ℕ} (hst : CacheOk env st)
    (h : symbolLookup env mode rType rSym target st = .ok (y, st1)) : CacheOk env st1 := by
  rcases symbolLookup_ok h with ⟨-, rfl⟩ | ⟨-, x, hlook⟩
  · exact hst
  · exact lookupSymbol_cacheOk hst hlook

omit [DecidableEq σ] in
theorem tlsLookup_ok {rType rSym : ℕ} {st st1 : Relocator σ} {y : Option σ × Option ElfSym × ℕ}
    (h : tlsLookup env rType rSym st = .ok (y, st1)) :
    st1 = st ∨ ∃ x, lookupSymbol env rSym (env.symtab rSym).stName st = .ok (x, st1) := by
  unfold tlsLookup at h
  dsimp only at h
  by_cases h0 : rSym = 0
  · -- `r_sym == 0`: the current module, with the relocator unchanged
    left
    rw [if_pos h0] at h
    dsimp only at h
    split_ifs at h
    cases h
    rfl
  rw [if_neg h0] at h
  by_cases hlocal : elfStBind (env.symtab rSym).stInfo = stbLocal
  · rw [if_pos hlocal] at h
    split_ifs at h
  rw [if_neg hlocal] at h
  cases hlook : lookupSymbol env rSym (env.symtab rSym).stName st with
  | error e => simp [hlook] at h
  | ok r =>
    obtain ⟨⟨foundIn, sym⟩, st2⟩ := r
    simp only [hlook] at h
    refine .inr ⟨(foundIn, sym), ?_⟩
    split_ifs at h
    cases sym with
    | none => cases h; rfl
    | some s =>
      dsimp only at h
      split_ifs at h
      cases h
      rfl

omit [DecidableEq σ] in
theorem tlsLookup_cacheOk {rType rSym : ℕ} {st st1 : Relocator σ}
    {y : Option σ × Option ElfSym × ℕ} (hst : CacheOk env st)
    (h : tlsLookup env rType rSym st = .ok (y, st1)) : CacheOk env st1 := by
  rcases tlsLookup_ok h with rfl | ⟨x, hlook⟩
  · exact hst
  · exact lookupSymbol_cacheOk hst hlook

omit [DecidableEq σ] in
theorem map_ok_state {α β : Type} {e : Except RelocFailure α} {g : α → β} {w : β}
    {st st1 : Relocator σ} (h : e.map (fun a ↦ (g a, st)) = .ok (w, st1)) : st1 = st := by
  cases e with
  | error => cases h
  | ok a => cases h; rfl

omit [DecidableEq σ] in
theorem tlsdescReloc_sameCache {reloc : Rel} {target symAddr : ℕ} {foundIn : Option σ}
    {st st1 : Relocator σ} {w : Option RelocWrite}
    (h : tlsdescReloc env reloc target foundIn symAddr st = .ok (w, st1)) : SameCache st st1 := by
  unfold tlsdescReloc at h
  split at h
  · cases h
    exact ⟨rfl, rfl, rfl⟩
  · split at h
    · cases h
    · split at h <;> cases h <;> exact ⟨rfl, rfl, rfl⟩

theorem ite_ok_elim {ε α : Type} {c : Prop} [Decidable c] {a b : Except ε α} {x : α} {P : Prop}
    (h : (if c then a else b) = .ok x) (ha : a = .ok x → P) (hb : b = .ok x → P) : P := by
  split at h
  exacts [ha h, hb h]

omit [DecidableEq σ] in
theorem generalSwitch_sameCache {mem : ℕ → ℕ} {reloc : Rel} {rType target symAddr symName : ℕ}
    {foundIn : Option σ} {st st1 : Relocator σ} {w : Option RelocWrite}
    (h : generalSwitch env mem reloc rType target foundIn symAddr symName st = .ok (w, st1)) :
    SameCache st st1 := by
  unfold generalSwitch at h
  dsimp only at h
  -- one goal per branch of the `switch`, without simplifying the conditions of the others
  repeat' refine ite_ok_elim h (fun h ↦ ?_) (fun h ↦ ?_)
  all_goals first
    | (cases h <;> exact ⟨rfl, rfl, rfl⟩)
    | exact tlsdescReloc_sameCache h
    -- the TLS types whose value is computed first
    | (obtain rfl := map_ok_state h; exact ⟨rfl, rfl, rfl⟩)

/-- The body keeps the cache right when its fallback does: the relocator changes only in lookups
and in the `switch`, which leaves the cache. -/
theorem processRelocationBody_cacheOk {mem : ℕ → ℕ} {mode : RelocMode}
    {fallback : Relocator σ → RelocResult σ (Option RelocWrite)}
    (hfallback : ∀ st st1 w, CacheOk env st → fallback st = .ok (w, st1) → CacheOk env st1)
    {reloc : Rel} {st st1 : Relocator σ} {w : Option RelocWrite} (hst : CacheOk env st)
    (h : processRelocationBody env mem mode fallback reloc st = .ok (w, st1)) : CacheOk env st1 := by
  unfold processRelocationBody at h
  dsimp only at h
  split_ifs at h with hstr hnone hfall
  · cases h
    exact hst
  · exact hfallback _ _ _ hst h
  -- the symbol looked up, then the fast write, the fallback or the `switch`
  all_goals
    split at h
    · cases h
    rename_i foundIn sym symAddr st2 hlooked
    have hst2 : CacheOk env st2 := by
      first
        | exact tlsLookup_cacheOk hst hlooked
        | exact symbolLookup_cacheOk hst hlooked
    split at h
    · cases h
      exact hst2
    first
      | exact hfallback _ _ _ hst2 h
      | exact hst2.of_sameCache (generalSwitch_sameCache h)

theorem processRelocationGeneral_cacheOk {mem : ℕ → ℕ} {reloc : Rel} {st st1 : Relocator σ}
    {w : Option RelocWrite} (hst : CacheOk env st)
    (h : processRelocationGeneral env mem reloc st = .ok (w, st1)) : CacheOk env st1 :=
  processRelocationBody_cacheOk (fun _ _ _ _ hfb ↦ by cases hfb) hst h

theorem processRelocation_cacheOk {mem : ℕ → ℕ} {mode : RelocMode} {reloc : Rel}
    {st st1 : Relocator σ} {w : Option RelocWrite} (hst : CacheOk env st)
    (h : processRelocation env mem mode reloc st = .ok (w, st1)) : CacheOk env st1 := by
  unfold processRelocation at h
  split_ifs at h
  · exact processRelocationGeneral_cacheOk hst h
  · exact processRelocationBody_cacheOk (fun _ _ _ ↦ processRelocationGeneral_cacheOk) hst h

theorem relocateAll_cacheOk {store : (ℕ → ℕ) → RelocWrite → ℕ → ℕ} {relocs : List (RelocMode × Rel)}
    {mem mem1 : ℕ → ℕ} {st st1 : Relocator σ} (hst : CacheOk env st)
    (h : relocateAll env store relocs mem st = .ok (mem1, st1)) : CacheOk env st1 := by
  induction relocs generalizing mem st with
  | nil =>
    cases h
    exact hst
  | cons r relocs ih =>
    obtain ⟨mode, reloc⟩ := r
    unfold relocateAll at h
    split at h
    · cases h
    · rename_i w st2 hproc
      exact ih (processRelocation_cacheOk hst hproc) h

/-- The one-entry cache of `lookup_symbol` is transparent. After every sequence of relocations
processed by a fresh relocator the cache holds what an uncached lookup of its key finds; and from
every relocator whose cache does, `lookup_symbol` of every `r_sym` but `0` returns what
`lookup_version_info` and `soinfo_do_lookup` return without the cache, and leaves a relocator whose
cache still does. Every call of `lookup_symbol` is made from such a relocator: at the start of a
relocation or after the lookup of the same relocation. -/
theorem lookupSymbol_cache_transparent (store : (ℕ → ℕ) → RelocWrite → ℕ → ℕ) :
    (∀ (relocs : List (RelocMode × Rel)) (mem mem1 : ℕ → ℕ) (st1 : Relocator σ),
      relocateAll env store relocs mem freshRelocator = .ok (mem1, st1) → CacheOk env st1) ∧
    ∀ (st : Relocator σ) (rSym : ℕ), CacheOk env st → rSym ≠ 0 →
      (lookupSymbol env rSym (env.symtab rSym).stName st).map Prod.fst =
          lookupUncached env rSym (env.symtab rSym).stName ∧
        ∀ x st1, lookupSymbol env rSym (env.symtab rSym).stName st = .ok (x, st1) →
          CacheOk env st1 :=
  ⟨fun _ _ _ _ h ↦ relocateAll_cacheOk cacheOk_fresh h,
    fun _ _ hst hr ↦ ⟨lookupSymbol_transparent hst hr, fun _ _ ↦ lookupSymbol_cacheOk hst⟩⟩

end Cache

/-- Two `R_X86_64_GLOB_DAT` relocations of symbol 1: the second lookup hits the cache, and the
relocator they leave, keyed on symbol 1, answers as an uncached lookup does. -/
theorem lookupSymbol_cache_transparent_hit :
    ∃ (mem1 : ℕ → ℕ) (st1 : Relocator ℕ),
      relocateAll sampleRelocEnv (fun mem _ ↦ mem)
          [(.general, ⟨0x100, 0x100000006, 0⟩), (.general, ⟨0x108, 0x100000006, 0⟩)] (fun _ ↦ 0)
          freshRelocator = .ok (mem1, st1) ∧
        st1.cacheSymVal = 1 ∧ CacheOk sampleRelocEnv st1 ∧
        (lookupSymbol sampleRelocEnv 1 (sampleRelocEnv.symtab 1).stName st1).map Prod.fst =
          lookupUncached sampleRelocEnv 1 (sampleRelocEnv.symtab 1).stName := by
  have hrun : ∀ mem1 (st1 : Relocator ℕ), relocateAll sampleRelocEnv (fun mem _ ↦ mem)
      [(.general, ⟨0x100, 0x100000006, 0⟩), (.general, ⟨0x108, 0x100000006, 0⟩)] (fun _ ↦ 0)
      freshRelocator = .ok (mem1, st1) → CacheOk sampleRelocEnv st1 :=
    (lookupSymbol_cache_transparent (fun mem _ ↦ mem)).1 _ _
  refine ⟨_, _, rfl, rfl, hrun _ _ rfl, ((lookupSymbol_cache_transparent (fun mem _ ↦ mem)).2 _ 1
    (hrun _ _ rfl) Nat.one_ne_zero).1⟩

end Bionic.Linker.Relocate
