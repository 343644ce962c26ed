import Bionic.Lib.Align
import Mathlib.Tactic.Ring

/-!
# The CFI shadow

For every `2 ^ kShadowGranularity` (256 KiB) region of the address space, the linker keeps a
16-bit shadow value that locates the `__cfi_check` of the library in that region, and libdl's
`__cfi_slowpath` reads it back (`CFIShadow.h`, `linker_cfi.cpp`, `libdl_cfi.cpp`). A value
`V ≥ kRegularShadowMin` in the slot of `P` means `__cfi_check` is at
`align_down(P, kShadowAlign) + kShadowAlign - (V - 2) * 4096`. `CFIShadowWriter::Add` writes
`sv_begin` into the region of `__cfi_check` and adds `kShadowAlign / 4096 = 64` per region after
it. The value is a `uint16_t`, and the loop falls back to `kUncheckedShadow` once `sv < sv_begin`,
which is meant to catch the wrap.

`sv_begin` is `66 - t`, where `__cfi_check` lies `t` pages of 4 KiB into its region. When `t ≥ 3`,
the 1024th step wraps `sv` back to exactly `sv_begin`. That is not below `sv_begin`, so the loop
goes on, and the region `2 ^ 28` bytes past that of `__cfi_check` decodes to
`__cfi_check + 2 ^ 28` (`addLibrary_wraps_to_wrong_cfiCheck`). More generally, `cfiCheckAddr_add`
shows that every slot the loop fills before a detected wrap decodes to `__cfi_check` plus
`2 ^ 28` times the number of times the 16-bit value wrapped.

The loop's fallback for slots that already hold a value reads `ShadowWrite`'s buffer. That buffer
is a fresh anonymous mapping, and its constructor copies only the bytes outside the slots, so the
fallback never fires (`add_slots`).

The model is the 64-bit build on aarch64. Addresses are `UInt64`. The shadow is a function from
slots to values, together with which of its pages are readable: `MapShadow` maps it `PROT_NONE`,
and `shadow_load` of a page that no `ShadowWrite` has touched faults (`none`).
-/

set_option autoImplicit false
set_option relaxedAutoImplicit false

namespace Bionic.Linker.CfiShadow

open Bionic.Lib.Align

/-! ## Constants of `CFIShadow.h` -/

/-- `kLibraryAlignmentBits`. -/
def kLibraryAlignmentBits : UInt64 := 18

def kShadowGranularity : UInt64 := kLibraryAlignmentBits

def kCfiCheckGranularity : UInt64 := 12

def kShadowAlign : UInt64 := 1 <<< kShadowGranularity

def kCfiCheckAlign : UInt64 := 1 <<< kCfiCheckGranularity

/-- `kMaxTargetAddr` on LP64. -/
def kMaxTargetAddr : UInt64 := 0xffffffffffff

def kShadowSize : UInt64 := kMaxTargetAddr >>> (kShadowGranularity - 1)

/-- `MemToShadowOffset`: the byte offset of an address's slot. -/
def memToShadowOffset (x : UInt64) : UInt64 := (x >>> kShadowGranularity) <<< 1

def kInvalidShadow : UInt16 := 0

def kUncheckedShadow : UInt16 := 1

def kRegularShadowMin : UInt16 := 2

/-- `kShadowAlign` as an alignment of the alignment library. -/
def shadowAlign : Pow2Align := ⟨18, by decide⟩

theorem kShadowAlign_eq : kShadowAlign = shadowAlign.size := by decide

/-! ## The shadow mapping and the writer -/

/-- The shadow mapping: the value of each slot (the `uint16_t` at byte offset `2 * slot`), and
which of its pages are readable. -/
structure Shadow where
  slots : ℕ → UInt16
  readable : ℕ → Bool

/-- `MapShadow`: a fresh anonymous mapping, all zero and `PROT_NONE`. -/
def mapShadow : Shadow := ⟨fun _ ↦ 0, fun _ ↦ false⟩

/-- `MemToShadow`: the slot of an address. -/
def memToShadow (x : UInt64) : ℕ := (memToShadowOffset x).toNat / 2

/-- The slots `[first, last)` as the loop of a `ShadowWrite` finds them: its buffer is a fresh
anonymous mapping, and the constructor copies only the parts of the pages before `first` and after
`last`, so the slots read `0` whatever the shadow holds. -/
def ShadowWrite.begin (first last : ℕ) : List UInt16 := List.replicate (last - first) 0

variable (pageSize : ℕ)

/-- The destructor of a `ShadowWrite`: the buffer is moved over the pages from the one holding
`first` to the one holding the last slot, which become readable. The rest of those pages was
copied, so only the slots change. -/
def ShadowWrite.commit (sh : Shadow) (first : ℕ) (buf : List UInt16) : Shadow where
  slots i := if first ≤ i ∧ i < first + buf.length then buf.getD (i - first) 0 else sh.slots i
  readable pg :=
    decide (2 * first / pageSize ≤ pg ∧ pg * pageSize < 2 * (first + buf.length)) || sh.readable pg

/-- `AddConstant(begin, end, v)`. -/
def addConstant (sh : Shadow) (begin «end» : UInt64) (v : UInt16) : Shadow :=
  let shadowBegin := memToShadow begin
  let shadowEnd := memToShadow («end» - 1) + 1
  ShadowWrite.commit pageSize sh shadowBegin
    ((ShadowWrite.begin shadowBegin shadowEnd).map fun _ ↦ v)

def addUnchecked (sh : Shadow) (begin «end» : UInt64) : Shadow :=
  addConstant pageSize sh begin «end» kUncheckedShadow

def addInvalid (sh : Shadow) (begin «end» : UInt64) : Shadow :=
  addConstant pageSize sh begin «end» kInvalidShadow

/-- The loop of `Add` over the slots of its `ShadowWrite`, with `sv` the value for the next slot. -/
def addLoop (svBegin svStep : UInt16) : UInt16 → List UInt16 → List UInt16
  | _, [] => []
  | sv, s :: rest =>
    -- below `sv_begin` the value has wrapped: unchecked, and `sv` stays where it is
    if sv < svBegin then kUncheckedShadow :: addLoop svBegin svStep sv rest
    else (if s = kInvalidShadow then sv else kUncheckedShadow) :: addLoop svBegin svStep (sv + svStep) rest

/-- `Add(begin, end, cfi_check)`. Its `CHECK` that `cfi_check` is aligned is made by its caller
`addLibrary` first. -/
def add (sh : Shadow) (begin «end» cfiCheck : UInt64) : Shadow :=
  let begin := max begin cfiCheck &&& ~~~(kShadowAlign - 1)
  let shadowBegin := memToShadow begin
  let shadowEnd := memToShadow («end» - 1) + 1
  let svBegin : UInt16 :=
    (((begin + kShadowAlign - cfiCheck) >>> kCfiCheckGranularity) + kRegularShadowMin.toUInt64).toUInt16
  let svStep : UInt16 := ((1 : UInt64) <<< (kShadowGranularity - kCfiCheckGranularity)).toUInt16
  ShadowWrite.commit pageSize sh shadowBegin
    (addLoop svBegin svStep svBegin (ShadowWrite.begin shadowBegin shadowEnd))

/-- What the writer reads of a `soinfo`. -/
structure Soinfo where
  soname : String
  base : UInt64
  size : UInt64
  /-- `soinfo_find_cfi_check`: the address of `__cfi_check`, `0` when there is none. -/
  cfiCheck : UInt64

/-- `AddLibrary(si)`; `false` for an unaligned `__cfi_check`. -/
def addLibrary (sh : Shadow) (si : Soinfo) : Bool × Shadow :=
  if si.base = 0 ∨ si.size = 0 then (true, sh)
  else if si.cfiCheck = 0 then (true, addUnchecked pageSize sh si.base (si.base + si.size))
  else if si.cfiCheck &&& (kCfiCheckAlign - 1) ≠ 0 then (false, sh)
  else (true, add pageSize sh si.base (si.base + si.size) si.cfiCheck)

/-- The loop of `MaybeInit` over the `solist`, which stops at the first failure. -/
def addLibraries (sh : Shadow) : List Soinfo → Bool × Shadow
  | [] => (true, sh)
  | si :: rest =>
    match addLibrary pageSize sh si with
    | (true, sh') => addLibraries sh' rest
    | (false, sh') => (false, sh')

/-- `find_libdl`. -/
def findLibdl (solist : List Soinfo) : Option Soinfo := solist.find? fun si ↦ si.soname == "libdl.so"

/-- The state of the `CFIShadowWriter`: the shadow once `shadow_start` is set, and
`initial_link_done`. -/
structure CFIShadowWriter where
  shadow : Option Shadow
  initialLinkDone : Bool

/-- `MaybeInit(new_si, solist)`, called once the initial link is done and while there is no
shadow: it maps the shadow when some library has a `__cfi_check` and adds every library. -/
def maybeInit (w : CFIShadowWriter) (newSi : Option Soinfo) (solist : List Soinfo) :
    Bool × CFIShadowWriter :=
  let found := match newSi with
    | none => solist.any fun si ↦ si.cfiCheck != 0
    | some si => si.cfiCheck != 0
  if !found then (true, w)
  -- `NotifyLibDl`: "CFI could not find libdl"
  else if (findLibdl solist).isNone then (false, w)
  else
    let r := addLibraries pageSize mapShadow solist
    (r.1, { w with shadow := some r.2 })

/-- `AfterLoad(si, solist)`. -/
def afterLoad (w : CFIShadowWriter) (si : Soinfo) (solist : List Soinfo) : Bool × CFIShadowWriter :=
  if !w.initialLinkDone then (true, w)
  else
    match w.shadow with
    | none => maybeInit pageSize w (some si) solist
    | some sh =>
      let r := addLibrary pageSize sh si
      (r.1, { w with shadow := some r.2 })

/-- `BeforeUnload(si)`. -/
def beforeUnload (w : CFIShadowWriter) (si : Soinfo) : CFIShadowWriter :=
  match w.shadow with
  | none => w
  | some sh =>
    if si.base = 0 ∨ si.size = 0 then w
    else { w with shadow := some (addInvalid pageSize sh si.base (si.base + si.size)) }

/-- `InitialLinkDone(solist)`. -/
def initialLinkDone (w : CFIShadowWriter) (solist : List Soinfo) : Bool × CFIShadowWriter :=
  maybeInit pageSize { w with initialLinkDone := true } none solist

/-! ## The reader in libdl -/

/-- `untag_address` on aarch64: the top byte cleared. -/
def untagAddress (p : UInt64) : UInt64 := p &&& (((1 : UInt64) <<< 56) - 1)

/-- `shadow_load(p)`; `none` when the slot's page is not readable and the load faults. -/
def shadowLoad (sh : Shadow) (p : UInt64) : Option UInt16 :=
  let addr := untagAddress p
  let ofs := memToShadowOffset addr
  if ofs > kShadowSize then some kInvalidShadow
  else if sh.readable (ofs.toNat / pageSize) then some (sh.slots (ofs.toNat / 2))
  else none

/-- `cfi_check_addr(v, ptr)`, for the values `v ≥ kRegularShadowMin` it is called with. -/
def cfiCheckAddr (v : UInt16) (ptr : UInt64) : UInt64 :=
  let alignedAddr := (ptr &&& ~~~(kShadowAlign - 1)) + kShadowAlign
  alignedAddr - (UInt64.ofNat (v.toNat - kRegularShadowMin.toNat) <<< kCfiCheckGranularity)

/-- What `cfi_slowpath_common` does with a target. -/
inductive SlowpathAction where
  /-- `__loader_cfi_fail`. -/
  | fail
  /-- An unchecked target: nothing. -/
  | pass
  /-- A call of the `__cfi_check` at this address. -/
  | check (cfiCheck : UInt64)
  deriving DecidableEq, Repr

/-- `cfi_slowpath_common(CallSiteTypeId, Ptr, DiagData)`; `none` when `shadow_load` faults. -/
def cfiSlowpathCommon (sh : Shadow) (ptr : UInt64) : Option SlowpathAction :=
  (shadowLoad pageSize sh ptr).map fun v ↦
    if v = kInvalidShadow then .fail
    else if v = kUncheckedShadow then .pass
    else .check (cfiCheckAddr v ptr)

/-! ## Words and slots -/

section Words

theorem toNat_memToShadowOffset (x : UInt64) :
    (memToShadowOffset x).toNat = 2 * (x.toNat / 2 ^ 18) := by
  have hx := x.toNat_lt
  have h18 : (18 : UInt64).toNat % 64 = 18 := by decide
  have h1 : (1 : UInt64).toNat % 64 = 1 := by decide
  simp only [memToShadowOffset, kShadowGranularity, kLibraryAlignmentBits, UInt64.toNat_shiftLeft,
    UInt64.toNat_shiftRight, Nat.shiftLeft_eq, Nat.shiftRight_eq_div_pow, h18, h1]
  omega

theorem memToShadow_eq (x : UInt64) : memToShadow x = x.toNat / 2 ^ 18 := by
  simp only [memToShadow, toNat_memToShadowOffset]
  omega

theorem toNat_kShadowSize : kShadowSize.toNat = 2 ^ 31 - 1 := by decide

theorem untagAddress_of_lt {p : UInt64} (hp : p.toNat < 2 ^ 56) : untagAddress p = p := by
  have hmask : (((1 : UInt64) <<< 56) - 1).toNat = 2 ^ 56 - 1 := by decide
  apply UInt64.toNat_inj.mp
  rw [untagAddress, UInt64.toNat_and, hmask, Nat.and_two_pow_sub_one_eq_mod, Nat.mod_eq_of_lt hp]

theorem toNat_and_not_kShadowAlign (x : UInt64) :
    (x &&& ~~~(kShadowAlign - 1)).toNat = x.toNat / 2 ^ 18 * 2 ^ 18 := by
  rw [kShadowAlign_eq]
  exact shadowAlign.toNat_down x

end Words

/-! ## `ShadowWrite` -/

section Commit

variable {sh : Shadow} {first i : ℕ} {buf : List UInt16}

theorem commit_slots_of_mem (h₁ : first ≤ i) (h₂ : i < first + buf.length) :
    (ShadowWrite.commit pageSize sh first buf).slots i = buf.getD (i - first) 0 := by
  simp [ShadowWrite.commit, h₁, h₂]

theorem commit_slots_of_not_mem (h : ¬(first ≤ i ∧ i < first + buf.length)) :
    (ShadowWrite.commit pageSize sh first buf).slots i = sh.slots i := by
  simp [ShadowWrite.commit, h]

theorem commit_readable_of_mem (h₁ : first ≤ i) (h₂ : i < first + buf.length) :
    (ShadowWrite.commit pageSize sh first buf).readable (2 * i / pageSize) = true := by
  have hle : 2 * first / pageSize ≤ 2 * i / pageSize := Nat.div_le_div_right (by omega)
  have hlt : 2 * i / pageSize * pageSize < 2 * (first + buf.length) :=
    lt_of_le_of_lt (Nat.div_mul_le_self _ _) (by omega)
  simp [ShadowWrite.commit, hle, hlt]

end Commit

/-! ## The loop of `Add` -/

section Loop

variable {svBegin svStep : UInt16}

@[simp]
theorem length_addLoop (sv : UInt16) (buf : List UInt16) :
    (addLoop svBegin svStep sv buf).length = buf.length := by
  induction buf generalizing sv with
  | nil => rfl
  | cons s rest ih =>
    unfold addLoop
    split <;> simp [ih]

theorem addLoop_zero_cons {sv : UInt16} (h : svBegin.toNat ≤ sv.toNat) (rest : List UInt16) :
    addLoop svBegin svStep sv (0 :: rest) = sv :: addLoop svBegin svStep (sv + svStep) rest := by
  have hlt : ¬sv < svBegin := by simpa [UInt16.lt_iff_toNat_lt] using h
  simp [addLoop, hlt, kInvalidShadow]

/-- Over a buffer of zeros, while no value has fallen below `sv_begin`, slot `j` gets
`sv + j * sv_step` in 16 bits. The induction is on `j`, with the value at the first slot. -/
theorem toNat_getD_addLoop {n j : ℕ} (hj : j < n) (sv : UInt16)
    (hwrap : ∀ i ≤ j, svBegin.toNat ≤ (sv.toNat + svStep.toNat * i) % 2 ^ 16) :
    ((addLoop svBegin svStep sv (List.replicate n 0)).getD j 0).toNat =
      (sv.toNat + svStep.toNat * j) % 2 ^ 16 := by
  induction j generalizing n sv with
  | zero =>
    obtain ⟨m, rfl⟩ : ∃ m, n = m + 1 := ⟨n - 1, by omega⟩
    have hsv : svBegin.toNat ≤ sv.toNat := by
      simpa [Nat.mod_eq_of_lt sv.toNat_lt] using hwrap 0 le_rfl
    rw [List.replicate_succ, addLoop_zero_cons hsv]
    simp [Nat.mod_eq_of_lt sv.toNat_lt]
  | succ j ih =>
    obtain ⟨m, rfl⟩ : ∃ m, n = m + 1 := ⟨n - 1, by omega⟩
    have hsv : svBegin.toNat ≤ sv.toNat := by
      simpa [Nat.mod_eq_of_lt sv.toNat_lt] using hwrap 0 (Nat.zero_le _)
    -- the next value is `sv + sv_step`, and the hypothesis shifts by one slot
    have hnext : ∀ i, ((sv + svStep).toNat + svStep.toNat * i) % 2 ^ 16 =
        (sv.toNat + svStep.toNat * (i + 1)) % 2 ^ 16 := fun i ↦ by
      rw [UInt16.toNat_add, Nat.mod_add_mod]
      ring_nf
    have hwrap' : ∀ i ≤ j, svBegin.toNat ≤ ((sv + svStep).toNat + svStep.toNat * i) % 2 ^ 16 :=
      fun i hi ↦ by rw [hnext]; exact hwrap (i + 1) (by omega)
    rw [List.replicate_succ, addLoop_zero_cons hsv, List.getD_cons_succ,
      ih (by omega) (sv + svStep) hwrap', hnext]

end Loop

/-! ## The reader -/

section Reader

theorem shadowLoad_of_lt {sh : Shadow} {p : UInt64} (hp : p.toNat < 2 ^ 48) :
    shadowLoad pageSize sh p =
      if sh.readable (2 * (p.toNat / 2 ^ 18) / pageSize) then some (sh.slots (p.toNat / 2 ^ 18))
      else none := by
  have hofs : ¬memToShadowOffset p > kShadowSize := by
    rw [gt_iff_lt, UInt64.lt_iff_toNat_lt, toNat_memToShadowOffset, toNat_kShadowSize]
    omega
  simp only [shadowLoad, untagAddress_of_lt (by omega : p.toNat < 2 ^ 56), hofs, if_false,
    toNat_memToShadowOffset, Nat.mul_div_cancel_left _ (by decide : 0 < 2)]

/-- `MapShadow` maps the shadow `PROT_NONE`: below `2 ^ 48` every load from the fresh shadow
faults, where no library was ever added. -/
theorem shadowLoad_mapShadow {p : UInt64} (hp : p.toNat < 2 ^ 48) :
    shadowLoad pageSize mapShadow p = none := by
  rw [shadowLoad_of_lt pageSize hp]
  rfl

theorem toNat_cfiCheckAddr {v : UInt16} {ptr : UInt64} (hptr : ptr.toNat < 2 ^ 48)
    (hv : (v.toNat - 2) * 2 ^ 12 ≤ ptr.toNat / 2 ^ 18 * 2 ^ 18 + 2 ^ 18) :
    (cfiCheckAddr v ptr).toNat = ptr.toNat / 2 ^ 18 * 2 ^ 18 + 2 ^ 18 - (v.toNat - 2) * 2 ^ 12 := by
  have hvlt := v.toNat_lt
  have h12 : kCfiCheckGranularity.toNat % 64 = 12 := by decide
  have hoff : (UInt64.ofNat (v.toNat - kRegularShadowMin.toNat) <<< kCfiCheckGranularity).toNat =
      (v.toNat - 2) * 2 ^ 12 := by
    rw [UInt64.toNat_shiftLeft, h12, UInt64.toNat_ofNat', Nat.shiftLeft_eq,
      show kRegularShadowMin.toNat = 2 from rfl]
    omega
  have halign : ((ptr &&& ~~~(kShadowAlign - 1)) + kShadowAlign).toNat =
      ptr.toNat / 2 ^ 18 * 2 ^ 18 + 2 ^ 18 := by
    rw [UInt64.toNat_add, toNat_and_not_kShadowAlign, show kShadowAlign.toNat = 2 ^ 18 by decide]
    omega
  rw [cfiCheckAddr, UInt64.toNat_sub_of_le _ _ (UInt64.le_iff_toNat_le.mpr (by omega)), halign, hoff]

end Reader

/-- **`Add` overwrites what its slots held.** Its fallback to `kUncheckedShadow` for a slot that
already holds a value reads the buffer of the `ShadowWrite`, which is all zero. So what `Add`
writes is the same whatever the shadow held. -/
theorem add_slots (sh sh' : Shadow) (begin «end» cfiCheck : UInt64) {i : ℕ}
    (h₁ : memToShadow (max begin cfiCheck &&& ~~~(kShadowAlign - 1)) ≤ i)
    (h₂ : i ≤ memToShadow («end» - 1)) :
    (add pageSize sh begin «end» cfiCheck).slots i = (add pageSize sh' begin «end» cfiCheck).slots i := by
  simp only [add]
  rw [commit_slots_of_mem pageSize h₁ (by simp [ShadowWrite.begin]; omega),
    commit_slots_of_mem pageSize h₁ (by simp [ShadowWrite.begin]; omega)]

/-! ## `AddLibrary` of a library with a `__cfi_check` -/

/-- A library that `AddLibrary` hands to `Add`: loaded at a nonzero base with a nonzero size, below
`2 ^ 48`, with a 4 KiB-aligned `__cfi_check` inside it. -/
structure CfiLibrary (si : Soinfo) : Prop where
  base_ne : si.base ≠ 0
  size_ne : si.size ≠ 0
  cfiCheck_ne : si.cfiCheck ≠ 0
  cfiCheck_aligned : si.cfiCheck.toNat % 2 ^ 12 = 0
  base_le : si.base.toNat ≤ si.cfiCheck.toNat
  cfiCheck_lt : si.cfiCheck.toNat < si.base.toNat + si.size.toNat
  end_le : si.base.toNat + si.size.toNat ≤ 2 ^ 48

section AddLibrary

variable (sh : Shadow) {si : Soinfo} (hsi : CfiLibrary si)
include hsi

theorem CfiLibrary.addLibrary_eq :
    addLibrary pageSize sh si = (true, add pageSize sh si.base (si.base + si.size) si.cfiCheck) := by
  have hmask : (kCfiCheckAlign - 1).toNat = 2 ^ 12 - 1 := by decide
  have haligned : si.cfiCheck &&& (kCfiCheckAlign - 1) = 0 := by
    apply UInt64.toNat_inj.mp
    rw [UInt64.toNat_and, hmask, Nat.and_two_pow_sub_one_eq_mod, hsi.cfiCheck_aligned]
    rfl
  simp [addLibrary, hsi.base_ne, hsi.size_ne, hsi.cfiCheck_ne, haligned]

theorem CfiLibrary.toNat_end : (si.base + si.size).toNat = si.base.toNat + si.size.toNat := by
  rw [UInt64.toNat_add]
  have := hsi.end_le
  omega

/-- The slots `Add` writes run from the region of `__cfi_check` to that of the library's last
byte. -/
theorem CfiLibrary.shadowBegin :
    memToShadow (max si.base si.cfiCheck &&& ~~~(kShadowAlign - 1)) = si.cfiCheck.toNat / 2 ^ 18 := by
  rw [memToShadow_eq, toNat_and_not_kShadowAlign, UInt64.toNat_max, max_eq_right hsi.base_le]
  omega

theorem CfiLibrary.shadowEnd :
    memToShadow (si.base + si.size - 1) = (si.base.toNat + si.size.toNat - 1) / 2 ^ 18 := by
  have hend := hsi.toNat_end
  have hpos : 1 ≤ si.base + si.size := by
    have := hsi.cfiCheck_lt
    rw [UInt64.le_iff_toNat_le, hend, show (1 : UInt64).toNat = 1 from rfl]
    omega
  rw [memToShadow_eq, UInt64.toNat_sub_of_le _ _ hpos, hend]
  rfl

theorem CfiLibrary.toNat_svBegin :
    ((((max si.base si.cfiCheck &&& ~~~(kShadowAlign - 1)) + kShadowAlign - si.cfiCheck) >>>
        kCfiCheckGranularity) + kRegularShadowMin.toUInt64).toUInt16.toNat =
      66 - si.cfiCheck.toNat % 2 ^ 18 / 2 ^ 12 := by
  have hC := hsi.cfiCheck_lt
  have hend := hsi.end_le
  have hal := hsi.cfiCheck_aligned
  have hbegin : (max si.base si.cfiCheck &&& ~~~(kShadowAlign - 1)).toNat =
      si.cfiCheck.toNat / 2 ^ 18 * 2 ^ 18 := by
    rw [toNat_and_not_kShadowAlign, UInt64.toNat_max, max_eq_right hsi.base_le]
  have hsum : ((max si.base si.cfiCheck &&& ~~~(kShadowAlign - 1)) + kShadowAlign).toNat =
      si.cfiCheck.toNat / 2 ^ 18 * 2 ^ 18 + 2 ^ 18 := by
    rw [UInt64.toNat_add, hbegin, show kShadowAlign.toNat = 2 ^ 18 by decide]
    omega
  have hsub : ((max si.base si.cfiCheck &&& ~~~(kShadowAlign - 1)) + kShadowAlign -
      si.cfiCheck).toNat = 2 ^ 18 - si.cfiCheck.toNat % 2 ^ 18 := by
    rw [UInt64.toNat_sub_of_le _ _ (UInt64.le_iff_toNat_le.mpr (by rw [hsum]; omega)), hsum]
    omega
  have h12 : kCfiCheckGranularity.toNat % 64 = 12 := by decide
  rw [UInt64.toNat_toUInt16, UInt64.toNat_add, UInt64.toNat_shiftRight, hsub, h12,
    Nat.shiftRight_eq_div_pow, show kRegularShadowMin.toUInt64.toNat = 2 from rfl]
  omega

/-- **What `Add` writes** for such a library: the values of the loop from `sv_begin = 66 - t` in
steps of 64, over the slots from the region of `__cfi_check` to that of the library's last byte. -/
theorem CfiLibrary.add_eq :
    add pageSize sh si.base (si.base + si.size) si.cfiCheck =
      ShadowWrite.commit pageSize sh (si.cfiCheck.toNat / 2 ^ 18)
        (addLoop (UInt16.ofNat (66 - si.cfiCheck.toNat % 2 ^ 18 / 2 ^ 12)) 64
          (UInt16.ofNat (66 - si.cfiCheck.toNat % 2 ^ 18 / 2 ^ 12))
          (ShadowWrite.begin (si.cfiCheck.toNat / 2 ^ 18)
            ((si.base.toNat + si.size.toNat - 1) / 2 ^ 18 + 1))) := by
  simp only [add, hsi.shadowBegin, hsi.shadowEnd]
  -- the step is `64` by computation; both occurrences of `sv_begin` are `66 - t`
  congr 2
  all_goals
    apply UInt16.toNat_inj.mp
    rw [hsi.toNat_svBegin, UInt16.toNat_ofNat']
    omega

/-- **Where `__cfi_check` is read back after `AddLibrary`.** In the regions from that of
`__cfi_check` up to the first wrap the loop detects, `shadow_load` gives a regular value, and
`cfi_check_addr` gives `__cfi_check` plus `2 ^ 28` for each time the 16-bit value wrapped. The
shadow before the call does not matter. -/
theorem CfiLibrary.cfiCheckAddr_addLibrary {P : UInt64}
    (hP₁ : si.cfiCheck.toNat / 2 ^ 18 ≤ P.toNat / 2 ^ 18)
    (hP₂ : P.toNat < si.base.toNat + si.size.toNat)
    (hwrap : ∀ i ≤ P.toNat / 2 ^ 18 - si.cfiCheck.toNat / 2 ^ 18,
      66 - si.cfiCheck.toNat % 2 ^ 18 / 2 ^ 12 ≤
        (66 - si.cfiCheck.toNat % 2 ^ 18 / 2 ^ 12 + 64 * i) % 2 ^ 16) :
    ∃ v, shadowLoad pageSize (addLibrary pageSize sh si).2 P = some v ∧
      kRegularShadowMin.toNat ≤ v.toNat ∧
      (cfiCheckAddr v P).toNat = si.cfiCheck.toNat + 2 ^ 28 *
        ((66 - si.cfiCheck.toNat % 2 ^ 18 / 2 ^ 12 +
          64 * (P.toNat / 2 ^ 18 - si.cfiCheck.toNat / 2 ^ 18)) / 2 ^ 16) := by
  have hend := hsi.end_le
  have hal := hsi.cfiCheck_aligned
  have hP48 : P.toNat < 2 ^ 48 := by omega
  set t := si.cfiCheck.toNat % 2 ^ 18 / 2 ^ 12 with ht
  set j := P.toNat / 2 ^ 18 - si.cfiCheck.toNat / 2 ^ 18 with hj
  have h66 : (UInt16.ofNat (66 - t)).toNat = 66 - t := by
    rw [UInt16.toNat_ofNat']
    omega
  -- the slot of `P` is slot `j` of the loop
  have hmem : P.toNat / 2 ^ 18 < si.cfiCheck.toNat / 2 ^ 18 +
      (ShadowWrite.begin (si.cfiCheck.toNat / 2 ^ 18)
        ((si.base.toNat + si.size.toNat - 1) / 2 ^ 18 + 1)).length := by
    simp only [ShadowWrite.begin, List.length_replicate]
    omega
  have hlen : P.toNat / 2 ^ 18 < si.cfiCheck.toNat / 2 ^ 18 + (addLoop (UInt16.ofNat (66 - t)) 64
      (UInt16.ofNat (66 - t)) (ShadowWrite.begin (si.cfiCheck.toNat / 2 ^ 18)
        ((si.base.toNat + si.size.toNat - 1) / 2 ^ 18 + 1))).length := by
    rwa [length_addLoop]
  have hjlt : j < (si.base.toNat + si.size.toNat - 1) / 2 ^ 18 + 1 - si.cfiCheck.toNat / 2 ^ 18 := by
    simp only [ShadowWrite.begin, List.length_replicate] at hmem
    omega
  have h64 : (64 : UInt16).toNat = 64 := rfl
  have hval : ((addLoop (UInt16.ofNat (66 - t)) 64 (UInt16.ofNat (66 - t))
      (ShadowWrite.begin (si.cfiCheck.toNat / 2 ^ 18)
        ((si.base.toNat + si.size.toNat - 1) / 2 ^ 18 + 1))).getD j 0).toNat =
      (66 - t + 64 * j) % 2 ^ 16 := by
    rw [ShadowWrite.begin, toNat_getD_addLoop hjlt _ (fun i hi ↦ by rw [h66, h64]; exact hwrap i hi),
      h66, h64]
  rw [hsi.addLibrary_eq pageSize sh, hsi.add_eq pageSize sh, shadowLoad_of_lt pageSize hP48,
    commit_readable_of_mem pageSize hP₁ hlen, if_pos rfl, commit_slots_of_mem pageSize hP₁ hlen]
  refine ⟨_, rfl, ?_, ?_⟩
  · -- no wrap has been detected at slot `j`, so the value is at least `66 - t ≥ 3`
    have := hwrap j le_rfl
    rw [hval, show kRegularShadowMin.toNat = 2 from rfl]
    omega
  · have hmod := hwrap j le_rfl
    rw [toNat_cfiCheckAddr hP48 (by rw [hval]; omega), hval]
    omega

end AddLibrary

/-! ## The missed wrap -/

/-- **`AddLibrary` misses the wrap of the shadow value.** Take a library whose `__cfi_check` lies at
least three pages of 4 KiB into its 256 KiB region, and which reaches `2 ^ 28` bytes past that
region. Then the region `2 ^ 28` bytes further on gets a regular shadow value, and `cfi_check_addr`
sends every address there to `__cfi_check + 2 ^ 28`, whatever the shadow held before. -/
theorem addLibrary_wraps_to_wrong_cfiCheck (sh : Shadow) (si : Soinfo) (hsi : CfiLibrary si)
    (hpage : 3 ≤ si.cfiCheck.toNat % 2 ^ 18 / 2 ^ 12) (P : UInt64)
    (hP : P.toNat / 2 ^ 18 = si.cfiCheck.toNat / 2 ^ 18 + 1024)
    (hPend : P.toNat < si.base.toNat + si.size.toNat) :
    ∃ v, shadowLoad pageSize (addLibrary pageSize sh si).2 P = some v ∧
      kRegularShadowMin.toNat ≤ v.toNat ∧ (cfiCheckAddr v P).toNat = si.cfiCheck.toNat + 2 ^ 28 := by
  have ht : si.cfiCheck.toNat % 2 ^ 18 / 2 ^ 12 < 64 := by omega
  -- from `66 - t ≤ 63` the 1024th step lands on `sv_begin` itself, which is not below it
  have hwrap : ∀ i ≤ P.toNat / 2 ^ 18 - si.cfiCheck.toNat / 2 ^ 18,
      66 - si.cfiCheck.toNat % 2 ^ 18 / 2 ^ 12 ≤
        (66 - si.cfiCheck.toNat % 2 ^ 18 / 2 ^ 12 + 64 * i) % 2 ^ 16 := fun i hi ↦ by
    rw [hP] at hi
    omega
  obtain ⟨v, hload, hmin, haddr⟩ := hsi.cfiCheckAddr_addLibrary pageSize sh (P := P)
    (by omega) hPend hwrap
  refine ⟨v, hload, hmin, ?_⟩
  rw [haddr, hP]
  omega

/-- A library of 257 MiB at `0x7000000000`, with its `__cfi_check` three pages into its first
region. -/
def libBig : Soinfo := ⟨"libbig.so", 0x7000000000, 0x10100000, 0x7000003000⟩

/-- After `AddLibrary(libBig)` on a fresh shadow, a call to `0x7010000000` is checked by a
`__cfi_check` at `0x7010003000`, `2 ^ 28` bytes past the real one. -/
theorem addLibrary_wraps_to_wrong_cfiCheck_libBig :
    ∃ v, shadowLoad 4096 (addLibrary 4096 mapShadow libBig).2 0x7010000000 = some v ∧
      kRegularShadowMin.toNat ≤ v.toNat ∧
      (cfiCheckAddr v 0x7010000000).toNat = libBig.cfiCheck.toNat + 2 ^ 28 :=
  addLibrary_wraps_to_wrong_cfiCheck 4096 mapShadow libBig
    ⟨by decide, by decide, by decide, by decide, by decide, by decide, by decide⟩
    (by decide) 0x7010000000 (by decide) (by decide)


end Bionic.Linker.CfiShadow
