import Bionic.Linker.Sleb128
import Mathlib.Data.List.Chain

/-!
# Packed relocations

Android packs a library's relocations in the APS2 format: the number of relocations and the first
offset, then groups of relocations, each a header (size, flags, and the fields the group shares)
followed by the fields of each member. Every number is written in signed LEB128, which
`sleb128_decoder::pop_front` of `Bionic.Linker.Sleb128`, at 64 bits, reads back
(`popFront_encode_toInt_append`).

`for_all_packed_relocs` (the `USE_RELA` build, `forAllPackedRelocs`) walks such a stream and calls
back with each relocation. The offsets and addends it decodes are deltas from the relocation
before, across group boundaries too, and a group's flags decide which fields are shared:
`RELOCATION_GROUPED_BY_OFFSET_DELTA_FLAG` shares the offset delta, `RELOCATION_GROUPED_BY_INFO_FLAG`
the info, and `RELOCATION_GROUP_HAS_ADDEND_FLAG` with `RELOCATION_GROUPED_BY_ADDEND_FLAG` shares
one addend, read as a delta from the addend before the group; without
`RELOCATION_GROUP_HAS_ADDEND_FLAG` every addend of the group is zero.

`encodePackedRelocs` writes a list of groups in this format. `forAllPackedRelocs_encodePackedRelocs`
shows that decoding it calls back with exactly the relocations of the groups, in order, and stops
at the first one the callback refuses, for every partition whose flags the groups fit
(`GroupsFit`).
-/

set_option autoImplicit false
set_option relaxedAutoImplicit false

namespace Bionic.Linker.PackedRelocs

open Bionic.Lib.Sleb128
open scoped UInt64.CommRing

/-! ### `sleb128_decoder` -/

/-- `sleb128_decoder::pop_front` of the 64-bit linker: the decoder at `w = 64`, its word read as the
`size_t` it is. -/
def popFront (buffer : List UInt8) : Option (UInt64 × List UInt8) :=
  (Sleb128.popFront 64 buffer).map fun r ↦ (UInt64.ofBitVec r.1, r.2)

/-- The decoder reads back every 64-bit word from the encoding of the signed number its bits
stand for, whatever follows the encoding. -/
theorem popFront_encode_toInt_append (w : UInt64) (rest : List UInt8) :
    popFront (encode w.toInt64.toInt ++ rest) = some (w, rest) := by
  have hrange : -(64 * 128 ^ 9) ≤ w.toBitVec.toInt ∧ w.toBitVec.toInt < 64 * 128 ^ 9 := by
    have := BitVec.le_toInt w.toBitVec
    have := BitVec.toInt_lt (x := w.toBitVec)
    constructor <;> omega
  rw [popFront, show w.toInt64.toInt = w.toBitVec.toInt from rfl, Sleb128.popFront,
    Sleb128.popFrontFrom_encode_append 9 hrange 0 0 (by norm_num) (by simp), BitVec.twoPow_zero,
    zero_add, BitVec.mul_one, Option.map_some]
  exact congrArg (fun b : BitVec 64 ↦ some (UInt64.ofBitVec b, rest)) BitVec.ofInt_toInt

/-! ### `for_all_packed_relocs` -/

/-- `ElfW(Rela)`; the addend is held as the bits of the signed number. -/
structure Rela where
  rOffset : UInt64
  rInfo : UInt64
  rAddend : UInt64
  deriving DecidableEq, Repr

def relocationGroupedByInfoFlag : UInt64 := 1

def relocationGroupedByOffsetDeltaFlag : UInt64 := 2

def relocationGroupedByAddendFlag : UInt64 := 4

def relocationGroupHasAddendFlag : UInt64 := 8

/-- `group_flags_reloc`: the two addend flags of a group. -/
def groupFlagsReloc (groupFlags : UInt64) : UInt64 :=
  groupFlags &&& (relocationGroupHasAddendFlag ||| relocationGroupedByAddendFlag)

/-- The header of a group: its size and flags, the shared offset delta, the shared info, and the
addend update; the relocation carried from the group before is updated in place. -/
def decodeGroupHeader (reloc : Rela) (buffer : List UInt8) :
    Option (UInt64 × UInt64 × UInt64 × Rela × List UInt8) := do
  let (groupSize, buffer) ← popFront buffer
  let (groupFlags, buffer) ← popFront buffer
  let (groupROffsetDelta, buffer) ←
    if groupFlags &&& relocationGroupedByOffsetDeltaFlag ≠ 0 then popFront buffer
    else some (0, buffer)
  let (reloc, buffer) ←
    if groupFlags &&& relocationGroupedByInfoFlag ≠ 0 then
      (popFront buffer).map fun (rInfo, buffer) ↦ ({ reloc with rInfo }, buffer)
    else some (reloc, buffer)
  let (reloc, buffer) ←
    if groupFlagsReloc groupFlags = relocationGroupHasAddendFlag then some (reloc, buffer)
    else if groupFlagsReloc groupFlags =
        relocationGroupHasAddendFlag ||| relocationGroupedByAddendFlag then
      (popFront buffer).map fun (delta, buffer) ↦ ({ reloc with rAddend := reloc.rAddend + delta }, buffer)
    else some ({ reloc with rAddend := 0 }, buffer)
  return (groupSize, groupFlags, groupROffsetDelta, reloc, buffer)

/-- The fields one relocation of a group reads, applied to the relocation before it. -/
def decodeMember (groupFlags groupROffsetDelta : UInt64) (reloc : Rela) (buffer : List UInt8) :
    Option (Rela × List UInt8) := do
  let (rOffset, buffer) ←
    if groupFlags &&& relocationGroupedByOffsetDeltaFlag ≠ 0 then
      some (reloc.rOffset + groupROffsetDelta, buffer)
    else (popFront buffer).map fun (delta, buffer) ↦ (reloc.rOffset + delta, buffer)
  let (rInfo, buffer) ←
    if groupFlags &&& relocationGroupedByInfoFlag = 0 then popFront buffer
    else some (reloc.rInfo, buffer)
  let (rAddend, buffer) ←
    if groupFlagsReloc groupFlags = relocationGroupHasAddendFlag then
      (popFront buffer).map fun (delta, buffer) ↦ (reloc.rAddend + delta, buffer)
    else some (reloc.rAddend, buffer)
  return ({ rOffset, rInfo, rAddend }, buffer)

section Decoder

variable {σ : Type} (callback : σ → Rela → Bool × σ)

/-- The `for` over the relocations of a group: a fault, `false` with the callback's state once
it refuses a relocation, or `true` with the last relocation and the rest of the buffer. -/
def groupLoop (groupFlags groupROffsetDelta : UInt64) :
    ℕ → Rela → σ → List UInt8 → Option (Bool × Rela × σ × List UInt8)
  | 0, reloc, state, buffer => some (true, reloc, state, buffer)
  | n + 1, reloc, state, buffer =>
    match decodeMember groupFlags groupROffsetDelta reloc buffer with
    | none => none
    | some (reloc, buffer) =>
      match callback state reloc with
      | (true, state) => groupLoop groupFlags groupROffsetDelta n reloc state buffer
      | (false, state) => some (false, reloc, state, buffer)

/-- The `for (idx = 0; idx < num_relocs; )` over groups, one unit of fuel per group. -/
def groupsLoop (numRelocs : UInt64) : ℕ → UInt64 → Rela → σ → List UInt8 → Option (Bool × σ)
  | 0, _, _, _, _ => none
  | fuel + 1, idx, reloc, state, buffer =>
    if idx < numRelocs then
      match decodeGroupHeader reloc buffer with
      | none => none
      | some (groupSize, groupFlags, groupROffsetDelta, reloc, buffer) =>
        match groupLoop callback groupFlags groupROffsetDelta groupSize.toNat reloc state buffer with
        | none => none
        | some (false, _, state, _) => some (false, state)
        | some (true, reloc, state, buffer) =>
          groupsLoop numRelocs fuel (idx + groupSize) reloc state buffer
    else some (true, state)

/-- `for_all_packed_relocs` in the `USE_RELA` build: the callback's answer and state, or a fault.
A group header reads at least two bytes, so the buffer's length bounds the number of groups. -/
def forAllPackedRelocs (state : σ) (buffer : List UInt8) : Option (Bool × σ) := do
  let (numRelocs, buffer) ← popFront buffer
  let (rOffset, buffer) ← popFront buffer
  groupsLoop callback numRelocs (buffer.length + 1) 0 { rOffset, rInfo := 0, rAddend := 0 } state
    buffer

/-- The callback applied to relocations in order, up to the first one it refuses. -/
def runCallback : List Rela → σ → Bool × σ
  | [], state => (true, state)
  | reloc :: rest, state =>
    match callback state reloc with
    | (true, state) => runCallback rest state
    | (false, state) => (false, state)

end Decoder

/-! ### The APS2 writer -/

/-- A number of the stream: the signed LEB128 encoding of the number a word's bits stand for. -/
def sleb (w : UInt64) : List UInt8 := encode w.toInt64.toInt

/-- A group of the stream: its flags and its relocations. -/
structure RelocGroup where
  groupFlags : UInt64
  members : List Rela
  deriving DecidableEq, Repr

/-- The fields of one relocation of a group that the group does not share, after `prev`. -/
def encodeMember (groupFlags : UInt64) (prev reloc : Rela) : List UInt8 :=
  (if groupFlags &&& relocationGroupedByOffsetDeltaFlag ≠ 0 then []
    else sleb (reloc.rOffset - prev.rOffset)) ++
  (if groupFlags &&& relocationGroupedByInfoFlag = 0 then sleb reloc.rInfo else []) ++
  (if groupFlagsReloc groupFlags = relocationGroupHasAddendFlag then
    sleb (reloc.rAddend - prev.rAddend) else [])

def encodeMembers (groupFlags : UInt64) : Rela → List Rela → List UInt8
  | _, [] => []
  | prev, reloc :: rest => encodeMember groupFlags prev reloc ++ encodeMembers groupFlags reloc rest

/-- A group after the relocation `prev`: the header with the shared fields taken from its first
relocation, then its members. -/
def encodeGroup (prev : Rela) (group : RelocGroup) : List UInt8 :=
  let first := group.members.headD prev
  sleb (UInt64.ofNat group.members.length) ++ sleb group.groupFlags ++
  (if group.groupFlags &&& relocationGroupedByOffsetDeltaFlag ≠ 0 then
    sleb (first.rOffset - prev.rOffset) else []) ++
  (if group.groupFlags &&& relocationGroupedByInfoFlag ≠ 0 then sleb first.rInfo else []) ++
  (if groupFlagsReloc group.groupFlags =
      relocationGroupHasAddendFlag ||| relocationGroupedByAddendFlag then
    sleb (first.rAddend - prev.rAddend) else []) ++
  encodeMembers group.groupFlags prev group.members

def encodeGroups : Rela → List RelocGroup → List UInt8
  | _, [] => []
  | prev, group :: rest => encodeGroup prev group ++ encodeGroups (group.members.getLastD prev) rest

/-- The relocations of a list of groups, in order. -/
def relocsOf (groups : List RelocGroup) : List Rela := groups.flatMap RelocGroup.members

/-- The APS2 stream of a list of groups (after the `APS2` signature): the count, the initial
offset, and the groups, each after the last relocation of the one before. -/
def encodePackedRelocs (initialOffset : UInt64) (groups : List RelocGroup) : List UInt8 :=
  sleb (UInt64.ofNat (relocsOf groups).length) ++ sleb initialOffset ++
    encodeGroups { rOffset := initialOffset, rInfo := 0, rAddend := 0 } groups

/-! ### Groups that fit their flags -/

/-- What a group's flags ask of two consecutive relocations of the group. -/
structure Follows (groupFlags groupROffsetDelta : UInt64) (prev reloc : Rela) : Prop where
  rOffset : groupFlags &&& relocationGroupedByOffsetDeltaFlag ≠ 0 →
    reloc.rOffset = prev.rOffset + groupROffsetDelta
  rInfo : groupFlags &&& relocationGroupedByInfoFlag ≠ 0 → reloc.rInfo = prev.rInfo
  rAddend : groupFlagsReloc groupFlags =
      relocationGroupHasAddendFlag ||| relocationGroupedByAddendFlag → reloc.rAddend = prev.rAddend

/-- A group fits its flags after the relocation `prev`: it is not empty, the offset delta it
shares is the one from `prev` to its first relocation, its relocations follow one another as the
flags ask, and without `RELOCATION_GROUP_HAS_ADDEND_FLAG` their addends are zero. -/
def GroupFits (prev : Rela) (group : RelocGroup) : Prop :=
  match group.members with
  | [] => False
  | first :: rest =>
    List.IsChain (Follows group.groupFlags (first.rOffset - prev.rOffset)) (first :: rest) ∧
      (groupFlagsReloc group.groupFlags ≠ relocationGroupHasAddendFlag →
        groupFlagsReloc group.groupFlags ≠
          relocationGroupHasAddendFlag ||| relocationGroupedByAddendFlag →
        ∀ reloc ∈ first :: rest, reloc.rAddend = 0)

/-- Every group fits its flags after the last relocation of the groups before it. -/
def GroupsFit : Rela → List RelocGroup → Prop
  | _, [] => True
  | prev, group :: rest => GroupFits prev group ∧ GroupsFit (group.members.getLastD prev) rest

instance (groupFlags groupROffsetDelta : UInt64) (prev reloc : Rela) :
    Decidable (Follows groupFlags groupROffsetDelta prev reloc) :=
  decidable_of_iff
    ((groupFlags &&& relocationGroupedByOffsetDeltaFlag ≠ 0 →
        reloc.rOffset = prev.rOffset + groupROffsetDelta) ∧
      (groupFlags &&& relocationGroupedByInfoFlag ≠ 0 → reloc.rInfo = prev.rInfo) ∧
      (groupFlagsReloc groupFlags =
          relocationGroupHasAddendFlag ||| relocationGroupedByAddendFlag →
        reloc.rAddend = prev.rAddend))
    ⟨fun ⟨hoffset, hinfo, haddend⟩ ↦ ⟨hoffset, hinfo, haddend⟩,
      fun ⟨hoffset, hinfo, haddend⟩ ↦ ⟨hoffset, hinfo, haddend⟩⟩

instance (prev : Rela) (group : RelocGroup) : Decidable (GroupFits prev group) :=
  match h : group.members with
  | [] => isFalse (by simp [GroupFits, h])
  | first :: rest =>
    decidable_of_iff
      (List.IsChain (Follows group.groupFlags (first.rOffset - prev.rOffset)) (first :: rest) ∧
        (groupFlagsReloc group.groupFlags ≠ relocationGroupHasAddendFlag →
          groupFlagsReloc group.groupFlags ≠
            relocationGroupHasAddendFlag ||| relocationGroupedByAddendFlag →
          ∀ reloc ∈ first :: rest, reloc.rAddend = 0))
      (by simp only [GroupFits, h])

instance decidableGroupsFit : (prev : Rela) → (groups : List RelocGroup) →
    Decidable (GroupsFit prev groups)
  | _, [] => isTrue trivial
  | prev, group :: rest =>
    have := decidableGroupsFit (group.members.getLastD prev) rest
    inferInstanceAs (Decidable (GroupFits prev group ∧ GroupsFit _ rest))

/-! ### Decoding what the writer wrote -/

@[simp]
theorem popFront_sleb_append (w : UInt64) (rest : List UInt8) :
    popFront (sleb w ++ rest) = some (w, rest) :=
  popFront_encode_toInt_append w rest

/-- What the relocation carried by the decoder holds before a member `reloc` is read, `prev`
being the relocation before it: the offset of `prev`, the addend of `prev` when each relocation
reads its addend delta, and the shared info and addend of the member otherwise. -/
structure MemberReady (groupFlags : UInt64) (prev reloc carried : Rela) : Prop where
  rOffset : carried.rOffset = prev.rOffset
  rInfo : groupFlags &&& relocationGroupedByInfoFlag ≠ 0 → carried.rInfo = reloc.rInfo
  rAddend_of_has : groupFlagsReloc groupFlags = relocationGroupHasAddendFlag →
    carried.rAddend = prev.rAddend
  rAddend_of_not_has : groupFlagsReloc groupFlags ≠ relocationGroupHasAddendFlag →
    carried.rAddend = reloc.rAddend

theorem decodeMember_encodeMember {groupFlags : UInt64} (groupROffsetDelta : UInt64)
    {prev reloc carried : Rela}
    (hready : MemberReady groupFlags prev reloc carried)
    (hoffset : groupFlags &&& relocationGroupedByOffsetDeltaFlag ≠ 0 →
      reloc.rOffset = prev.rOffset + groupROffsetDelta)
    (rest : List UInt8) :
    decodeMember groupFlags groupROffsetDelta carried (encodeMember groupFlags prev reloc ++ rest) =
      some (reloc, rest) := by
  obtain ⟨hcarriedOffset, hinfo, haddendHas, haddendNotHas⟩ := hready
  rcases reloc with ⟨rOffset, rInfo, rAddend⟩
  unfold decodeMember encodeMember
  by_cases hdelta : groupFlags &&& relocationGroupedByOffsetDeltaFlag ≠ 0 <;>
    by_cases hshared : groupFlags &&& relocationGroupedByInfoFlag = 0 <;>
    by_cases hhas : groupFlagsReloc groupFlags = relocationGroupHasAddendFlag <;>
    simp_all

/-- A group's addend flags ask for an addend delta per relocation, for one shared addend, or for
none. -/
theorem groupFlagsReloc_cases (groupFlags : UInt64) :
    groupFlagsReloc groupFlags = relocationGroupHasAddendFlag ∨
      groupFlagsReloc groupFlags = relocationGroupHasAddendFlag ||| relocationGroupedByAddendFlag ∨
      (groupFlagsReloc groupFlags ≠ relocationGroupHasAddendFlag ∧
        groupFlagsReloc groupFlags ≠
          relocationGroupHasAddendFlag ||| relocationGroupedByAddendFlag) := by
  by_cases hhas : groupFlagsReloc groupFlags = relocationGroupHasAddendFlag
  · exact .inl hhas
  · by_cases hshared : groupFlagsReloc groupFlags =
        relocationGroupHasAddendFlag ||| relocationGroupedByAddendFlag
    · exact .inr (.inl hshared)
    · exact .inr (.inr ⟨hhas, hshared⟩)

theorem has_ne_shared :
    relocationGroupHasAddendFlag ≠ relocationGroupHasAddendFlag ||| relocationGroupedByAddendFlag := by
  decide

/-- The relocation the decoder carries after a group's header, for a group whose first relocation
is `first`, after `prev`. -/
def carriedAfterHeader (groupFlags : UInt64) (prev first : Rela) : Rela :=
  { prev with
    rInfo := if groupFlags &&& relocationGroupedByInfoFlag ≠ 0 then first.rInfo else prev.rInfo
    rAddend :=
      if groupFlagsReloc groupFlags = relocationGroupHasAddendFlag then prev.rAddend
      else if groupFlagsReloc groupFlags =
          relocationGroupHasAddendFlag ||| relocationGroupedByAddendFlag then
        prev.rAddend + (first.rAddend - prev.rAddend)
      else 0 }

/-- A group's header decodes to its size, its flags, the offset delta the writer shared (zero
when there is none) and the carried relocation of `carriedAfterHeader`. -/
theorem decodeGroupHeader_encodeGroup {prev first : Rela} {group : RelocGroup}
    {others : List Rela} (hmembers : group.members = first :: others) (rest : List UInt8) :
    decodeGroupHeader prev (encodeGroup prev group ++ rest) =
      some (UInt64.ofNat group.members.length, group.groupFlags,
        if group.groupFlags &&& relocationGroupedByOffsetDeltaFlag ≠ 0 then
          first.rOffset - prev.rOffset else 0,
        carriedAfterHeader group.groupFlags prev first,
        encodeMembers group.groupFlags prev group.members ++ rest) := by
  unfold decodeGroupHeader encodeGroup carriedAfterHeader
  rw [hmembers, List.headD_cons]
  -- one case for each flag the header tests, and one for each addend mode
  by_cases hdelta : group.groupFlags &&& relocationGroupedByOffsetDeltaFlag = 0 <;>
    by_cases hinfo : group.groupFlags &&& relocationGroupedByInfoFlag = 0 <;>
    rcases groupFlagsReloc_cases group.groupFlags with hmode | hmode | ⟨hhas, hshared⟩ <;>
    simp only [List.append_assoc, popFront_sleb_append, has_ne_shared, has_ne_shared.symm, ne_eq,
      not_true_eq_false, not_false_eq_true, if_true, if_false, List.nil_append, Option.bind_eq_bind,
      Option.bind_some, Option.map_some, Option.pure_def, *]

/-- The carried relocation after a header is ready for the group's first relocation, when the
group's addends are zero unless the flags give them. -/
theorem memberReady_carriedAfterHeader (groupFlags : UInt64) (prev first : Rela)
    (hzero : groupFlagsReloc groupFlags ≠ relocationGroupHasAddendFlag →
      groupFlagsReloc groupFlags ≠ relocationGroupHasAddendFlag ||| relocationGroupedByAddendFlag →
      first.rAddend = 0) :
    MemberReady groupFlags prev first (carriedAfterHeader groupFlags prev first) where
  rOffset := rfl
  rInfo hinfo := by simp [carriedAfterHeader, hinfo]
  rAddend_of_has hhas := by simp [carriedAfterHeader, hhas]
  rAddend_of_not_has hhas := by
    rcases groupFlagsReloc_cases groupFlags with hmode | hshared | ⟨-, hshared⟩
    · exact absurd hmode hhas
    · simp [carriedAfterHeader, hshared, has_ne_shared.symm]
    · simp [carriedAfterHeader, hhas, hshared, hzero hhas hshared]

/-- Within a group, a relocation that follows the one before it as the flags ask is ready to be
read once the decoder carries the one before. -/
theorem memberReady_of_follows {groupFlags delta : UInt64} {prev reloc : Rela}
    (hfollows : Follows groupFlags delta prev reloc)
    (hzero : groupFlagsReloc groupFlags ≠ relocationGroupHasAddendFlag →
      groupFlagsReloc groupFlags ≠ relocationGroupHasAddendFlag ||| relocationGroupedByAddendFlag →
      prev.rAddend = 0 ∧ reloc.rAddend = 0) :
    MemberReady groupFlags prev reloc prev where
  rOffset := rfl
  rInfo hinfo := (hfollows.rInfo hinfo).symm
  rAddend_of_has _ := rfl
  rAddend_of_not_has hhas := by
    by_cases hshared : groupFlagsReloc groupFlags =
        relocationGroupHasAddendFlag ||| relocationGroupedByAddendFlag
    · exact (hfollows.rAddend hshared).symm
    · obtain ⟨hprev, hreloc⟩ := hzero hhas hshared
      rw [hprev, hreloc]

section Decoder

variable {σ : Type} (callback : σ → Rela → Bool × σ)

/-- How a run of the loop over a group's members ends, given how the callback run over them
ends: with the last relocation and the rest of the buffer when every callback accepted. -/
def EndsAs (result : Option (Bool × Rela × σ × List UInt8)) (expected : Bool × σ) (last : Rela)
    (rest : List UInt8) : Prop :=
  if expected.1 then result = some (true, last, expected.2, rest)
  else ∃ reloc buffer, result = some (false, reloc, expected.2, buffer)

theorem runCallback_append (first second : List Rela) (state : σ) :
    runCallback callback (first ++ second) state =
      match runCallback callback first state with
      | (true, state) => runCallback callback second state
      | (false, state) => (false, state) := by
  induction first generalizing state with
  | nil => rfl
  | cons reloc first ih =>
    simp only [List.cons_append, runCallback]
    rcases callback state reloc with ⟨_ | _, state⟩
    · rfl
    · exact ih state

/-- The loop over a group's members calls back with exactly the members, in order; the
induction is on the members, each read from the carried relocation of the one before. -/
theorem groupLoop_encodeMembers {groupFlags delta : UInt64} (groupROffsetDelta : UInt64)
    (hdelta : groupFlags &&& relocationGroupedByOffsetDeltaFlag ≠ 0 → groupROffsetDelta = delta)
    (rest : List UInt8) :
    ∀ (members : List Rela) (prev carried : Rela) (state : σ),
      (∀ first ∈ members.head?, MemberReady groupFlags prev first carried ∧
        (groupFlags &&& relocationGroupedByOffsetDeltaFlag ≠ 0 →
          first.rOffset = prev.rOffset + delta)) →
      List.IsChain (Follows groupFlags delta) members →
      (groupFlagsReloc groupFlags ≠ relocationGroupHasAddendFlag →
        groupFlagsReloc groupFlags ≠
          relocationGroupHasAddendFlag ||| relocationGroupedByAddendFlag →
        ∀ reloc ∈ members, reloc.rAddend = 0) →
      EndsAs (groupLoop callback groupFlags groupROffsetDelta members.length carried state
          (encodeMembers groupFlags prev members ++ rest))
        (runCallback callback members state) (members.getLastD carried) rest
  | [], _, _, _, _, _, _ => by simp [EndsAs, groupLoop, runCallback, encodeMembers]
  | reloc :: members, prev, carried, state, hfirst, hchain, hzeros => by
    obtain ⟨hready, hoffset⟩ := hfirst reloc rfl
    have hdecode := decodeMember_encodeMember groupROffsetDelta hready
      (fun h ↦ by rw [hdelta h]; exact hoffset h) (encodeMembers groupFlags reloc members ++ rest)
    simp only [encodeMembers, List.append_assoc, List.length_cons, groupLoop, hdecode]
    rcases hcall : callback state reloc with ⟨_ | _, state'⟩
    · simp [EndsAs, runCallback, hcall]
    · -- the next member is read from this one
      have hnext : ∀ next ∈ members.head?, MemberReady groupFlags reloc next reloc ∧
          (groupFlags &&& relocationGroupedByOffsetDeltaFlag ≠ 0 →
            next.rOffset = reloc.rOffset + delta) := by
        intro next hnext
        have hfollows := hchain.rel_head? hnext
        refine ⟨memberReady_of_follows hfollows fun hhas hshared ↦ ?_, hfollows.rOffset⟩
        exact ⟨hzeros hhas hshared reloc List.mem_cons_self,
          hzeros hhas hshared next (List.mem_cons_of_mem _ (List.mem_of_mem_head? hnext))⟩
      have hrest := groupLoop_encodeMembers groupROffsetDelta hdelta rest members reloc reloc state'
        hnext
        hchain.tail fun hhas hshared r hr ↦ hzeros hhas hshared r (List.mem_cons_of_mem _ hr)
      rw [List.getLastD_cons]
      simpa [runCallback, hcall] using hrest

theorem getLastD_of_ne_nil {members : List Rela} (hmembers : members ≠ []) (a b : Rela) :
    members.getLastD a = members.getLastD b := by
  obtain ⟨first, others, rfl⟩ := List.exists_cons_of_ne_nil hmembers
  rw [List.getLastD_cons, List.getLastD_cons]

/-- The loop over groups calls back with the relocations of the groups, in order; the induction is
on the groups, each decoded after the last relocation of the one before. -/
theorem groupsLoop_encodeGroups (numRelocs : UInt64) (rest : List UInt8) :
    ∀ (groups : List RelocGroup) (fuel : ℕ) (idx : UInt64) (prev : Rela) (state : σ),
      GroupsFit prev groups → groups.length < fuel →
      idx.toNat + (relocsOf groups).length = numRelocs.toNat →
      groupsLoop callback numRelocs fuel idx prev state (encodeGroups prev groups ++ rest) =
        some (runCallback callback (relocsOf groups) state)
  | [], 0, _, _, _, _, hfuel, _ => absurd hfuel (Nat.not_lt_zero _)
  | [], fuel + 1, idx, prev, state, _, _, hcount => by
    -- every relocation is read: the loop stops
    have hdone : ¬idx < numRelocs := by
      rw [UInt64.lt_iff_toNat_lt]
      simp only [relocsOf, List.flatMap_nil, List.length_nil, Nat.add_zero] at hcount
      omega
    simp [groupsLoop, hdone, relocsOf, runCallback]
  | group :: groups, 0, _, _, _, _, hfuel, _ => absurd hfuel (Nat.not_lt_zero _)
  | group :: groups, fuel + 1, idx, prev, state, ⟨hfits, hrestFit⟩, hfuel, hcount => by
    obtain ⟨first, others, hmembers⟩ : ∃ first others, group.members = first :: others := by
      unfold GroupFits at hfits
      split at hfits
      · exact hfits.elim
      · exact ⟨_, _, ‹_›⟩
    have hfits' := hfits
    unfold GroupFits at hfits'
    rw [hmembers] at hfits'
    obtain ⟨hchain, hzero⟩ := hfits'
    have hlength : (relocsOf (group :: groups)).length =
        group.members.length + (relocsOf groups).length := by
      simp [relocsOf]
    have hsize : (UInt64.ofNat group.members.length).toNat = group.members.length := by
      rw [UInt64.toNat_ofNat']
      exact Nat.mod_eq_of_lt (by have := numRelocs.toNat_lt; omega)
    have hlt : idx < numRelocs := by
      rw [UInt64.lt_iff_toNat_lt]
      simp only [hlength, hmembers, List.length_cons] at hcount
      omega
    have hnext : (idx + UInt64.ofNat group.members.length).toNat + (relocsOf groups).length =
        numRelocs.toNat := by
      rw [UInt64.toNat_add, hsize, Nat.mod_eq_of_lt (by have := numRelocs.toNat_lt; omega)]
      omega
    -- the members of the group, read from the relocation the header leaves
    have hgroup := groupLoop_encodeMembers callback
      (if group.groupFlags &&& relocationGroupedByOffsetDeltaFlag ≠ 0 then
        first.rOffset - prev.rOffset else 0)
      (fun h ↦ if_pos h) (encodeGroups (group.members.getLastD prev) groups ++ rest)
      group.members prev (carriedAfterHeader group.groupFlags prev first) state
      (by
        intro reloc hreloc
        rw [hmembers, List.head?_cons, Option.mem_some_iff] at hreloc
        subst hreloc
        refine ⟨memberReady_carriedAfterHeader _ _ _ fun hhas hshared ↦
          hzero hhas hshared first List.mem_cons_self, fun _ ↦ ?_⟩
        rw [add_sub_cancel])
      (hmembers ▸ hchain) (hmembers ▸ hzero)
    rw [getLastD_of_ne_nil (by simp [hmembers]) (carriedAfterHeader group.groupFlags prev first) prev]
      at hgroup
    simp only [groupsLoop, if_pos hlt, encodeGroups, List.append_assoc,
      decodeGroupHeader_encodeGroup hmembers, hsize]
    rw [relocsOf, List.flatMap_cons, runCallback_append, ← relocsOf]
    unfold EndsAs at hgroup
    rcases hrun : runCallback callback group.members state with ⟨_ | _, state'⟩
    · -- the callback refused a member: the loop stops with its state
      rw [hrun] at hgroup
      obtain ⟨reloc, buffer, hloop⟩ := hgroup
      rw [hloop]
    · rw [hrun] at hgroup
      simp only [if_true] at hgroup
      simp only [hgroup]
      exact groupsLoop_encodeGroups numRelocs rest groups fuel _ _ state' hrestFit
        (by simpa using hfuel) hnext

theorem length_le_length_encodeGroups :
    ∀ (prev : Rela) (groups : List RelocGroup), groups.length ≤ (encodeGroups prev groups).length
  | _, [] => le_refl _
  | prev, group :: groups => by
    have hheader : 1 ≤ (encodeGroup prev group).length := by
      unfold encodeGroup sleb
      simp only [List.length_append]
      have := List.length_pos_iff.mpr (encode_ne_nil (UInt64.ofNat group.members.length).toInt64.toInt)
      omega
    have := length_le_length_encodeGroups (group.members.getLastD prev) groups
    simp only [encodeGroups, List.length_append, List.length_cons]
    omega

/-- Decoding the APS2 stream of groups that fit their flags calls back with exactly their
relocations, in order, once each, and stops at the first one the callback refuses. -/
theorem forAllPackedRelocs_encodePackedRelocs (state : σ) (initialOffset : UInt64)
    (groups : List RelocGroup)
    (hfit : GroupsFit { rOffset := initialOffset, rInfo := 0, rAddend := 0 } groups)
    (hcount : (relocsOf groups).length < 2 ^ 64) :
    forAllPackedRelocs callback state (encodePackedRelocs initialOffset groups) =
      some (runCallback callback (relocsOf groups) state) := by
  have hfuel := length_le_length_encodeGroups { rOffset := initialOffset, rInfo := 0, rAddend := 0 }
    groups
  have hloop := groupsLoop_encodeGroups callback (UInt64.ofNat (relocsOf groups).length) []
    groups ((encodeGroups { rOffset := initialOffset, rInfo := 0, rAddend := 0 } groups).length + 1)
    0 _ state hfit (by omega) (by rw [UInt64.toNat_ofNat', Nat.mod_eq_of_lt hcount]; simp)
  rw [List.append_nil] at hloop
  simp only [forAllPackedRelocs, encodePackedRelocs, List.append_assoc, popFront_sleb_append,
    Option.bind_eq_bind, Option.bind_some, hloop]

end Decoder

/-- A callback that accepts every relocation and records it. -/
def recordCallback (calls : List Rela) (reloc : Rela) : Bool × List Rela := (true, calls ++ [reloc])

/-- Two relocations sharing their info and offset delta, each with its own addend delta. -/
def sharedInfoGroups : List RelocGroup :=
  [⟨relocationGroupedByInfoFlag ||| relocationGroupedByOffsetDeltaFlag ||| relocationGroupHasAddendFlag,
    [⟨0x1000, 0x403, 16⟩, ⟨0x1008, 0x403, 32⟩]⟩]

theorem forAllPackedRelocs_encodePackedRelocs_sharedInfoGroups :
    forAllPackedRelocs recordCallback [] (encodePackedRelocs 0xff8 sharedInfoGroups) =
      some (runCallback recordCallback (relocsOf sharedInfoGroups) []) :=
  forAllPackedRelocs_encodePackedRelocs recordCallback [] 0xff8 sharedInfoGroups (by decide)
    (by decide)

/-- A group without `RELOCATION_GROUP_HAS_ADDEND_FLAG` decodes with zero addends, and a group with
`RELOCATION_GROUPED_BY_ADDEND_FLAG` with one addend for all its members: relocations whose
addends differ decode to other relocations, though the flags hold of the rest of each group. -/
theorem forAllPackedRelocs_drops_addends :
    forAllPackedRelocs recordCallback [] (encodePackedRelocs 0 [⟨0, [⟨16, 1027, 5⟩]⟩]) =
        some (true, [⟨16, 1027, 0⟩]) ∧
      forAllPackedRelocs recordCallback []
          (encodePackedRelocs 0 [⟨relocationGroupHasAddendFlag ||| relocationGroupedByAddendFlag,
            [⟨16, 1027, 8⟩, ⟨24, 1027, 16⟩]⟩]) =
        some (true, [⟨16, 1027, 8⟩, ⟨24, 1027, 8⟩]) := by
  decide

end Bionic.Linker.PackedRelocs
