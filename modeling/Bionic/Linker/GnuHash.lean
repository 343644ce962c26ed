import Bionic.Lib.Neon
import Mathlib.Data.Fin.VecNotation
import Mathlib.Data.UInt

/-!
# The GNU symbol hash and its NEON kernel

`linker_gnu_hash.h` computes the GNU hash of a symbol name one byte at a time
(`calculateGnuHashSimple`): `h = h * 33 + c` from `5381`, modulo `2^32`, together with the
length of the name. On arm and arm64 the linker uses `calculate_gnu_hash_neon` instead
(`calculateGnuHashNeon`), which reads whole aligned 8-byte chunks, including bytes before the
name and after its NUL byte.

The vector kernel hashes a virtual byte stream (`virtualByte`): the `k = name % 8` bytes of the
first chunk that precede the name are forced to `0xff` by the `ignore_mask` of `kInitTable`,
and the initial accumulator is `5381 * 33⁻ᵏ` minus the contribution of those bytes, so the
stream hashes to the hash of the name (`hornerFold_kInitTable_accum`). The state is split into
two lane vectors that are `33 ^ 4` apart; `accumValue` is the hash they stand for, one loop pass
multiplies it by `33 ^ 8` and folds in a chunk (`accumValue_neonLoopBody`), and the tail tables
fold in the bytes of the last chunk before its first NUL (`neonFinish_hash`).

`calculateGnuHashNeon_eq_simple` is the refinement: for every name without NUL bytes, at every
misalignment and whatever the bytes around it in its first and last chunks, both functions
return the GNU hash of the name and its length. Memory is a function from addresses to bytes
and both loops carry fuel; the theorem gives the fuel that suffices.
-/

set_option autoImplicit false
set_option relaxedAutoImplicit false

namespace Bionic.Linker.GnuHash

open Bionic.Lib.Horner Bionic.Lib.Neon
open scoped UInt32.CommRing

/-- Byte-addressed memory. -/
abbrev Memory := ℕ → UInt8

/-- The GNU hash of a byte string: `h ↦ h * 33 + c` folded from `5381`, modulo `2 ^ 32`. -/
def gnuHash (bytes : List UInt8) : UInt32 := hornerFold 33 5381 (bytes.map UInt8.toUInt32)

/-! ### The byte-at-a-time hash -/

/-- The loop of `calculate_gnu_hash_simple`: `h += (h << 5) + *name_bytes++` until the NUL
byte, with one unit of fuel per byte read. -/
def calculateGnuHashSimpleLoop (mem : Memory) : ℕ → ℕ → UInt32 → Option (UInt32 × ℕ)
  | 0, _, _ => none
  | fuel + 1, nameBytes, h =>
    if mem nameBytes = 0 then some (h, nameBytes)
    else
      calculateGnuHashSimpleLoop mem fuel (nameBytes + 1)
        (h + ((h <<< 5) + (mem nameBytes).toUInt32))

/-- `calculate_gnu_hash_simple`: the hash and `name_bytes - name` as a 32-bit value. -/
def calculateGnuHashSimple (mem : Memory) (name fuel : ℕ) : Option (UInt32 × UInt32) :=
  (calculateGnuHashSimpleLoop mem fuel name 5381).map fun (h, nameBytes) ↦
    (h, UInt32.ofNat (nameBytes - name))

theorem gnuHash_concat (bytes : List UInt8) (c : UInt8) :
    gnuHash (bytes ++ [c]) = gnuHash bytes * 33 + c.toUInt32 := by
  rw [gnuHash, List.map_append, List.map_singleton, hornerFold_concat, gnuHash]

theorem add_shiftLeft_five (h c : UInt32) : h + ((h <<< 5) + c) = h * 33 + c := by
  have hshift : h <<< 5 = h * 32 := by
    apply UInt32.toNat_inj.mp
    simp [UInt32.toNat_shiftLeft, UInt32.toNat_mul, Nat.shiftLeft_eq]
  rw [hshift]
  ring

/-! ### Constants and tables of the vector kernel -/

/-- `kStep0` to `kStep11`: `kStepN` is `33 ^ N`. -/
def kStep (n : ℕ) : UInt32 := 33 ^ n

/-- `kStepN1` to `kStepN7`: powers of `0x3e0f83e1`, the inverse of `33` modulo `2 ^ 32`. -/
def kStepN (n : ℕ) : UInt32 := 0x3e0f83e1 ^ n

/-- `struct GnuHashInitEntry`. -/
structure GnuHashInitEntry where
  ignoreMask : UInt64
  accum : UInt32
  deriving Inhabited, DecidableEq

/-- `kInitTable`, indexed by the misalignment `(addr & 7)` of the name. -/
def kInitTable : List GnuHashInitEntry :=
  [⟨0, 5381 * kStep 0⟩,
   ⟨0xff, 5381 * kStepN 1 - 0xff * kStepN 1⟩,
   ⟨0xffff, 5381 * kStepN 2 - 0xff * kStepN 1 - 0xff * kStepN 2⟩,
   ⟨0xffffff, 5381 * kStepN 3 - 0xff * kStepN 1 - 0xff * kStepN 2 - 0xff * kStepN 3⟩,
   ⟨0xffffffff, 5381 * kStepN 4 - 0xff * kStepN 1 - 0xff * kStepN 2 - 0xff * kStepN 3 -
      0xff * kStepN 4⟩,
   ⟨0xffffffffff, 5381 * kStepN 5 - 0xff * kStepN 1 - 0xff * kStepN 2 - 0xff * kStepN 3 -
      0xff * kStepN 4 - 0xff * kStepN 5⟩,
   ⟨0xffffffffffff, 5381 * kStepN 6 - 0xff * kStepN 1 - 0xff * kStepN 2 - 0xff * kStepN 3 -
      0xff * kStepN 4 - 0xff * kStepN 5 - 0xff * kStepN 6⟩,
   ⟨0xffffffffffffff, 5381 * kStepN 7 - 0xff * kStepN 1 - 0xff * kStepN 2 - 0xff * kStepN 3 -
      0xff * kStepN 4 - 0xff * kStepN 5 - 0xff * kStepN 6 - 0xff * kStepN 7⟩]

/-- `kInclineVec`: `(33 ^ 3, 33 ^ 2, 33, 1)` as 16-bit lanes. -/
def kInclineVec : Lanes 4 UInt16 :=
  ![(kStep 3).toUInt16, (kStep 2).toUInt16, (kStep 1).toUInt16, (kStep 0).toUInt16]

/-- `kStep8Vec`. -/
def kStep8Vec : Lanes 4 UInt32 := vdupqNU32 (kStep 8)

/-- `kFinalStepTable`: for `n` remaining bytes, `33 ^ (n + 4)` then `33 ^ n`. -/
def kFinalStepTable : List UInt32 :=
  [kStep 4, kStep 0, kStep 5, kStep 1, kStep 6, kStep 2, kStep 7, kStep 3,
   kStep 8, kStep 4, kStep 9, kStep 5, kStep 10, kStep 6, kStep 11, kStep 7]

/-- `kFinalInclineTable`. -/
def kFinalInclineTable : List UInt32 :=
  [0, kStep 6, kStep 5, kStep 4, kStep 3, kStep 2, kStep 1, kStep 0,
   0, 0, 0, 0, 0, 0, 0, 0]

/-! ### The vector kernel -/

/-- The variables the loop of `calculate_gnu_hash_neon` carries. -/
structure NeonLoopState where
  chunkPtr : ℕ
  chunk : Lanes 8 UInt8
  accumLo : Lanes 4 UInt32
  accumHi : Lanes 4 UInt32

/-- The loop exit test: some byte of the chunk is NUL. -/
def chunkHasNul (chunk : Lanes 8 UInt8) : Bool :=
  vgetLaneU64 (vreinterpretU64U8 (vceqU8 chunk 0)) 0 != 0

/-- One pass of the loop after the exit test: both accumulators times `33 ^ 8`, the two halves
of the chunk accumulated with `kInclineVec`, and the next chunk loaded. -/
def neonLoopBody (mem : Memory) (state : NeonLoopState) : NeonLoopState :=
  let expand := vmovlU8 state.chunk
  { chunkPtr := state.chunkPtr + 8
    chunk := vld1U8 mem (state.chunkPtr + 8)
    accumLo := vmlalU16 (vmulqU32 state.accumLo kStep8Vec) (vgetLowU16 expand) kInclineVec
    accumHi := vmlalU16 (vmulqU32 state.accumHi kStep8Vec) (vgetHighU16 expand) kInclineVec }

/-- The `while (1)` loop, with one unit of fuel per chunk tested. -/
def neonLoop (mem : Memory) : ℕ → NeonLoopState → Option NeonLoopState
  | 0, _ => none
  | fuel + 1, state =>
    if chunkHasNul state.chunk then some state else neonLoop mem fuel (neonLoopBody mem state)

/-- The code after the loop: locate the NUL with `clz`, catch the low accumulator up with the
high one, fold in the remaining bytes and add the lanes. -/
def neonFinish (name : ℕ) (state : NeonLoopState) : UInt32 × UInt32 :=
  let isNul := vrev64U8 (vceqU8 state.chunk 0)
  let numValidBits := clzll (vgetLaneU64 (vreinterpretU64U8 isNul) 0)
  let nameLen := UInt32.ofInt ((state.chunkPtr : ℤ) - name + (numValidBits >>> 3 : ℕ))
  let finalStep0 := kFinalStepTable.getD (numValidBits >>> 2) 0
  let finalStep1 := kFinalStepTable.getD ((numValidBits >>> 2) + 1) 0
  let accumLo := vmulqU32 state.accumLo (vdupqNU32 finalStep0)
  let accumLo := vmlaqU32 accumLo state.accumHi (vdupqNU32 finalStep1)
  let incline := 8 - (numValidBits >>> 3)
  let inclineLo := vld1qU32 kFinalInclineTable incline
  let inclineHi := vld1qU32 kFinalInclineTable (incline + 4)
  let expand := vmovlU8 state.chunk
  let accumLo := vmlaqU32 accumLo (vmovlU16 (vgetLowU16 expand)) inclineLo
  let accumLo := vmlaqU32 accumLo (vmovlU16 (vgetHighU16 expand)) inclineHi
  let sum := vaddU32 (vgetLowU32 accumLo) (vgetHighU32 accumLo)
  (sum 0 + sum 1, nameLen)

/-- The state before the first pass: the aligned chunk holding the first byte of the name, its
leading bytes forced to `0xff`, and the accumulators of `kInitTable`. -/
def neonStart (mem : Memory) (name : ℕ) : NeonLoopState :=
  let offset := name % 8
  let chunkPtr := name - offset
  let entry := kInitTable.getD offset default
  { chunkPtr
    chunk := vorrU8 (vld1U8 mem chunkPtr) (bytesOfU64 entry.ignoreMask)
    accumLo := vdupqNU32 0
    accumHi := ![entry.accum, 0, 0, 0] }

/-- `calculate_gnu_hash_neon`. -/
def calculateGnuHashNeon (mem : Memory) (name fuel : ℕ) : Option (UInt32 × UInt32) :=
  (neonLoop mem fuel (neonStart mem name)).map (neonFinish name)

/-! ### A name in memory -/

/-- The bytes of `s` stand at `name`, none of them NUL, and a NUL byte follows them. Memory is
arbitrary everywhere else, in particular in the rest of the first and last aligned chunks. -/
structure NameAt (mem : Memory) (name : ℕ) (s : List UInt8) : Prop where
  ne_zero : ∀ c ∈ s, c ≠ 0
  get : ∀ i (hi : i < s.length), mem (name + i) = s[i]
  nul : mem (name + s.length) = 0

variable {mem : Memory} {name : ℕ} {s : List UInt8}

theorem NameAt.byte_ne_zero (hname : NameAt mem name s) {i : ℕ} (hi : i < s.length) :
    mem (name + i) ≠ 0 := by
  rw [hname.get i hi]
  exact hname.ne_zero _ (List.getElem_mem hi)

/-! ### The byte-at-a-time loop computes the hash -/

/-- Started `i` bytes into the name with the hash of those bytes, the simple loop returns the
hash of the name and the address of its NUL byte. -/
theorem calculateGnuHashSimpleLoop_spec (hname : NameAt mem name s) {i fuel : ℕ}
    (hi : i ≤ s.length) (hfuel : s.length - i < fuel) :
    calculateGnuHashSimpleLoop mem fuel (name + i) (gnuHash (s.take i)) =
      some (gnuHash s, name + s.length) := by
  induction fuel generalizing i with
  | zero => omega
  | succ fuel ih =>
    rcases Nat.lt_or_eq_of_le hi with hlt | rfl
    · have hnext := ih (i := i + 1) hlt (by omega)
      rw [calculateGnuHashSimpleLoop, if_neg (hname.byte_ne_zero hlt), add_shiftLeft_five,
        ← hnext, hname.get i hlt, List.take_succ_eq_append_getElem hlt, gnuHash_concat,
        ← add_assoc]
    · rw [calculateGnuHashSimpleLoop, if_pos hname.nul, List.take_length]

theorem calculateGnuHashSimple_spec (hname : NameAt mem name s) {fuel : ℕ}
    (hfuel : s.length < fuel) :
    calculateGnuHashSimple mem name fuel = some (gnuHash s, UInt32.ofNat s.length) := by
  have hloop := calculateGnuHashSimpleLoop_spec hname (Nat.zero_le _) (by omega : s.length - 0 < fuel)
  rw [add_zero, List.take_zero] at hloop
  rw [calculateGnuHashSimple]
  simp [gnuHash] at hloop
  simp [hloop, gnuHash]

/-! ### The stream the vector loop hashes -/

/-- The byte stream the vector loop hashes: the `name % 8` bytes of the first chunk that precede
the name read as `0xff`, then memory from the name on. -/
def virtualByte (mem : Memory) (name index : ℕ) : UInt8 :=
  if index < name % 8 then 0xff else mem (name - name % 8 + index)

/-- Chunk `j` of the virtual stream. -/
def virtualChunk (mem : Memory) (name j : ℕ) : Lanes 8 UInt8 :=
  fun lane ↦ virtualByte mem name (8 * j + lane)

/-- The first `n` bytes of the virtual stream, as hash digits. -/
def virtualDigits (mem : Memory) (name n : ℕ) : List UInt32 :=
  (List.range n).map fun index ↦ (virtualByte mem name index).toUInt32

/-- The bytes of a chunk, as hash digits. -/
def chunkDigits (chunk : Lanes 8 UInt8) : List UInt32 := List.ofFn fun lane ↦ (chunk lane).toUInt32

theorem chunkDigits_eq (chunk : Lanes 8 UInt8) :
    chunkDigits chunk =
      [(chunk 0).toUInt32, (chunk 1).toUInt32, (chunk 2).toUInt32, (chunk 3).toUInt32,
        (chunk 4).toUInt32, (chunk 5).toUInt32, (chunk 6).toUInt32, (chunk 7).toUInt32] :=
  rfl

/-- The hash the two accumulators stand for: the low one is `33 ^ 4` behind the high one. -/
def accumValue (accumLo accumHi : Lanes 4 UInt32) : UInt32 :=
  kStep 4 * (accumLo 0 + accumLo 1 + accumLo 2 + accumLo 3) +
    (accumHi 0 + accumHi 1 + accumHi 2 + accumHi 3)

theorem virtualDigits_add_eight (j : ℕ) :
    virtualDigits mem name (8 * j + 8) =
      virtualDigits mem name (8 * j) ++ chunkDigits (virtualChunk mem name j) := by
  rw [virtualDigits, List.range_add, List.map_append, List.map_map, ← virtualDigits]
  congr 1

theorem virtualDigits_add_take (j r : ℕ) (hr : r ≤ 8) :
    virtualDigits mem name (8 * j + r) =
      virtualDigits mem name (8 * j) ++ (chunkDigits (virtualChunk mem name j)).take r := by
  rw [virtualDigits, List.range_add, List.map_append, List.map_map, ← virtualDigits]
  congr 1
  refine List.ext_getElem (by simp [chunkDigits, hr]) fun i hi _ ↦ ?_
  simp only [List.getElem_map, List.getElem_range, List.getElem_take, chunkDigits,
    List.getElem_ofFn, virtualChunk, Function.comp]

theorem bytesOfU64_kInitTable_ignoreMask :
    ∀ offset lane : Fin 8, bytesOfU64 (kInitTable.getD offset default).ignoreMask lane =
      if lane.val < offset.val then 0xff else 0 := by
  decide

theorem hornerFold_kInitTable_accum :
    ∀ offset : Fin 8,
      hornerFold 33 (kInitTable.getD offset default).accum (List.replicate offset 0xff) = 5381 := by
  decide

theorem neonStart_chunk : (neonStart mem name).chunk = virtualChunk mem name 0 := by
  funext lane
  have hoffset : name % 8 < 8 := Nat.mod_lt _ (by decide)
  have hmask := bytesOfU64_kInitTable_ignoreMask ⟨name % 8, hoffset⟩ lane
  simp only [neonStart, vorrU8_apply, vld1U8_apply, virtualChunk, virtualByte, mul_zero,
    zero_add] at hmask ⊢
  rw [hmask]
  split_ifs
  · exact UInt8.or_neg_one
  · exact UInt8.or_zero

theorem accumValue_neonStart :
    accumValue (neonStart mem name).accumLo (neonStart mem name).accumHi =
      (kInitTable.getD (name % 8) default).accum := by
  simp [neonStart, accumValue]

/-! ### One pass of the loop -/

theorem kInclineVec_toUInt32 :
    ∀ lane : Fin 4, (kInclineVec lane).toUInt32 = kStep (3 - lane.val) := by
  decide

theorem accumValue_neonLoopBody (state : NeonLoopState) :
    accumValue (neonLoopBody mem state).accumLo (neonLoopBody mem state).accumHi =
      hornerFold 33 (accumValue state.accumLo state.accumHi) (chunkDigits state.chunk) := by
  simp only [neonLoopBody, accumValue, vmlalU16_apply, vmulqU32_apply, kStep8Vec,
    vdupqNU32_apply, vgetLowU16_apply, vgetHighU16_apply, vmovlU8_apply,
    UInt8.toUInt32_toUInt16, kInclineVec_toUInt32, chunkDigits_eq, hornerFold_cons,
    hornerFold_nil]
  simp only [kStep, Fin.isValue, Fin.val_zero, Fin.val_one, Fin.val_two,
    show ((3 : Fin 4) : ℕ) = 3 from rfl, Fin.reduceCastAdd, Fin.reduceNatAdd]
  ring

theorem neonLoopBody_chunkPtr (state : NeonLoopState) :
    (neonLoopBody mem state).chunkPtr = state.chunkPtr + 8 := rfl

theorem neonLoopBody_chunk (state : NeonLoopState) :
    (neonLoopBody mem state).chunk = vld1U8 mem (state.chunkPtr + 8) := rfl

/-- After `j` passes the loop points at chunk `j` of the virtual stream and its accumulators
hold the hash of the first `8 * j` virtual bytes. -/
theorem iterate_neonLoopBody (j : ℕ) :
    ((neonLoopBody mem)^[j] (neonStart mem name)).chunkPtr = name - name % 8 + 8 * j ∧
      ((neonLoopBody mem)^[j] (neonStart mem name)).chunk = virtualChunk mem name j ∧
      accumValue ((neonLoopBody mem)^[j] (neonStart mem name)).accumLo
          ((neonLoopBody mem)^[j] (neonStart mem name)).accumHi =
        hornerFold 33 (kInitTable.getD (name % 8) default).accum (virtualDigits mem name (8 * j)) := by
  induction j with
  | zero => exact ⟨rfl, neonStart_chunk, accumValue_neonStart⟩
  | succ j ih =>
    obtain ⟨hptr, hchunk, hvalue⟩ := ih
    rw [Function.iterate_succ_apply']
    refine ⟨?_, ?_, ?_⟩
    · rw [neonLoopBody_chunkPtr, hptr]
      ring
    · rw [neonLoopBody_chunk, hptr]
      funext lane
      have hoffset : name % 8 < 8 := Nat.mod_lt _ (by decide)
      simp only [vld1U8_apply, virtualChunk, virtualByte]
      rw [if_neg (by omega)]
      congr 1
      ring
    · rw [accumValue_neonLoopBody, hvalue, hchunk, show 8 * (j + 1) = 8 * j + 8 by ring,
        virtualDigits_add_eight, hornerFold_append]

/-! ### The loop stops at the first chunk with a NUL byte -/

theorem chunkHasNul_iff (chunk : Lanes 8 UInt8) :
    chunkHasNul chunk = true ↔ ∃ lane, chunk lane = 0 := by
  rw [chunkHasNul, bne_iff_ne, vgetLaneU64_vreinterpretU64U8_vceqU8_ne_zero]
  rfl

/-- With more fuel than passes, the loop runs the passes up to the first chunk that has a NUL
byte and stops there. -/
theorem neonLoop_iterate (state : NeonLoopState) (steps fuel : ℕ) (hfuel : steps < fuel)
    (hbefore : ∀ j < steps, chunkHasNul ((neonLoopBody mem)^[j] state).chunk = false)
    (hstop : chunkHasNul ((neonLoopBody mem)^[steps] state).chunk = true) :
    neonLoop mem fuel state = some ((neonLoopBody mem)^[steps] state) := by
  induction steps generalizing state fuel with
  | zero =>
    obtain ⟨fuel, rfl⟩ := Nat.exists_eq_add_of_lt hfuel
    rw [Function.iterate_zero_apply] at hstop ⊢
    rw [neonLoop, if_pos hstop]
  | succ steps ih =>
    obtain ⟨fuel, rfl⟩ := Nat.exists_eq_add_of_lt hfuel
    have hfirst := hbefore 0 (Nat.zero_lt_succ _)
    rw [Function.iterate_zero_apply] at hfirst
    rw [neonLoop, if_neg (by simp [hfirst]), Function.iterate_succ_apply]
    refine ih _ _ (by omega) (fun j hj ↦ ?_) hstop
    rw [← Function.iterate_succ_apply]
    exact hbefore (j + 1) (by omega)

section NameAt

variable (hname : NameAt mem name s)
include hname

theorem virtualByte_ne_zero {index : ℕ} (hindex : index < name % 8 + s.length) :
    virtualByte mem name index ≠ 0 := by
  unfold virtualByte
  split_ifs with hmask
  · decide
  · have hle : name % 8 ≤ name := Nat.mod_le _ _
    have haddr : name - name % 8 + index = name + (index - name % 8) := by omega
    rw [haddr]
    exact hname.byte_ne_zero (by omega)

theorem virtualByte_end : virtualByte mem name (name % 8 + s.length) = 0 := by
  have hle : name % 8 ≤ name := Nat.mod_le _ _
  rw [virtualByte, if_neg (by omega), show name - name % 8 + (name % 8 + s.length) =
    name + s.length by omega]
  exact hname.nul

theorem virtualDigits_end :
    virtualDigits mem name (name % 8 + s.length) =
      List.replicate (name % 8) 0xff ++ s.map UInt8.toUInt32 := by
  have hle : name % 8 ≤ name := Nat.mod_le _ _
  rw [virtualDigits, List.range_add, List.map_append, List.map_map]
  congr 1
  · refine List.ext_getElem (by simp) fun i hi _ ↦ ?_
    have hi' : i < name % 8 := by simpa using hi
    simp [virtualByte, hi']
  · refine List.ext_getElem (by simp) fun i hi _ ↦ ?_
    have hi' : i < s.length := by simpa using hi
    have haddr : name - name % 8 + (name % 8 + i) = name + i := by omega
    simp [virtualByte, haddr, hname.get i hi']

theorem hornerFold_virtualDigits_end :
    hornerFold 33 (kInitTable.getD (name % 8) default).accum
        (virtualDigits mem name (name % 8 + s.length)) = gnuHash s := by
  have hoffset : name % 8 < 8 := Nat.mod_lt _ (by decide)
  rw [virtualDigits_end hname, hornerFold_append,
    hornerFold_kInitTable_accum ⟨name % 8, hoffset⟩, gnuHash]

end NameAt

/-! ### The tail after the loop -/

/-- The weight the tail gives lane `lane` of the last chunk when `remaining` bytes precede its
NUL byte: `33 ^ (remaining - 1 - lane)` for those bytes and zero from the NUL byte on. -/
def finalIncline (remaining lane : ℕ) : UInt32 :=
  if lane < remaining then kStep (remaining - 1 - lane) else 0

theorem kFinalStepTable_getD :
    ∀ r : Fin 8, kFinalStepTable.getD ((8 * r.val) >>> 2) 0 = kStep (r.val + 4) ∧
      kFinalStepTable.getD ((8 * r.val) >>> 2 + 1) 0 = kStep r.val := by
  decide

theorem vld1qU32_kFinalInclineTable :
    ∀ (r : Fin 8) (lane : Fin 4),
      vld1qU32 kFinalInclineTable (8 - r.val) lane = finalIncline r lane ∧
        vld1qU32 kFinalInclineTable (8 - r.val + 4) lane = finalIncline r (lane + 4) := by
  decide

theorem sum_finalIncline (chunk : Lanes 8 UInt8) (r : Fin 8) :
    (chunk 0).toUInt32 * finalIncline r 0 + (chunk 1).toUInt32 * finalIncline r 1 +
        (chunk 2).toUInt32 * finalIncline r 2 + (chunk 3).toUInt32 * finalIncline r 3 +
        (chunk 4).toUInt32 * finalIncline r 4 + (chunk 5).toUInt32 * finalIncline r 5 +
        (chunk 6).toUInt32 * finalIncline r 6 + (chunk 7).toUInt32 * finalIncline r 7 =
      hornerFold 33 0 ((chunkDigits chunk).take r) := by
  rw [chunkDigits_eq]
  fin_cases r <;> simp [finalIncline, kStep] <;> ring

/-- The tail: with `r` bytes of the last chunk before its first NUL, the hash is the hash of the
accumulators extended by those bytes, and the length is the distance from the name to the NUL. -/
theorem neonFinish_spec (state : NeonLoopState) (r : Fin 8)
    (hbefore : ∀ lane, lane < r → state.chunk lane ≠ 0) (hat : state.chunk r = 0) :
    neonFinish name state =
      (hornerFold 33 (accumValue state.accumLo state.accumHi) ((chunkDigits state.chunk).take r),
        UInt32.ofInt ((state.chunkPtr : ℤ) - name + r.val)) := by
  have hclz : clzll (vgetLaneU64 (vreinterpretU64U8 (vrev64U8 (vceqU8 state.chunk 0))) 0) =
      8 * r.val :=
    clzll_vrev64U8 _ r (fun lane hlane ↦ by simp [hbefore lane hlane]) (by simp [hat])
  obtain ⟨hstep0, hstep1⟩ := kFinalStepTable_getD r
  have hinclineLo : vld1qU32 kFinalInclineTable (8 - r.val) =
      fun lane : Fin 4 ↦ finalIncline r lane := funext fun lane ↦ (vld1qU32_kFinalInclineTable r lane).1
  have hinclineHi : vld1qU32 kFinalInclineTable (8 - r.val + 4) =
      fun lane : Fin 4 ↦ finalIncline r (lane + 4) :=
    funext fun lane ↦ (vld1qU32_kFinalInclineTable r lane).2
  have hremaining : (8 * r.val) >>> 3 = r.val := by
    rw [Nat.shiftRight_eq_div_pow]
    omega
  have hlength : ((chunkDigits state.chunk).take r).length = r.val := by
    simp [chunkDigits, r.isLt.le]
  simp only [neonFinish, hclz, hstep0, hstep1, hremaining]
  rw [hinclineLo, hinclineHi]
  refine Prod.ext ?_ rfl
  rw [hornerFold_eq_add, ← sum_finalIncline, hlength]
  simp only [vaddU32_apply, vgetLowU32_apply, vgetHighU32_apply, vmlaqU32_apply, vmulqU32_apply,
    vdupqNU32_apply, vmovlU16_apply, vgetLowU16_apply, vgetHighU16_apply, vmovlU8_apply,
    UInt8.toUInt32_toUInt16, Fin.isValue, Fin.reduceCastAdd, Fin.reduceNatAdd, accumValue,
    kStep, pow_add, Fin.val_zero, Fin.val_one, Fin.val_two,
    show ((3 : Fin 4) : ℕ) = 3 from rfl]
  ring

/-! ### The vector kernel refines the byte-at-a-time hash -/

/-- For every name without NUL bytes, at every misalignment of its address and whatever the
other bytes of its first and last aligned chunks hold, the NEON kernel and the byte-at-a-time
loop both return the GNU hash of the name and its length, given fuel for one more chunk than
the name spans and for one more byte than it has. -/
theorem calculateGnuHashNeon_eq_simple (mem : Memory) (name : ℕ) (s : List UInt8)
    (hname : NameAt mem name s) (fuel fuelSimple : ℕ) (hfuel : (name % 8 + s.length) / 8 < fuel)
    (hfuelSimple : s.length < fuelSimple) :
    calculateGnuHashNeon mem name fuel = calculateGnuHashSimple mem name fuelSimple ∧
      calculateGnuHashSimple mem name fuelSimple = some (gnuHash s, UInt32.ofNat s.length) := by
  have hsimple := calculateGnuHashSimple_spec hname hfuelSimple
  refine ⟨?_, hsimple⟩
  rw [hsimple]
  -- the NUL byte sits in chunk `chunks` of the virtual stream, at lane `r`
  set chunks := (name % 8 + s.length) / 8 with hchunks
  set r : Fin 8 := ⟨(name % 8 + s.length) % 8, Nat.mod_lt _ (by decide)⟩ with hr
  have hsplit : 8 * chunks + r.val = name % 8 + s.length := Nat.div_add_mod _ _
  have hle : name % 8 ≤ name := Nat.mod_le _ _
  obtain ⟨hptr, hchunk, hvalue⟩ := @iterate_neonLoopBody mem name chunks
  have hloop : neonLoop mem fuel (neonStart mem name) =
      some ((neonLoopBody mem)^[chunks] (neonStart mem name)) := by
    refine neonLoop_iterate _ chunks fuel hfuel (fun j hj ↦ ?_) ?_
    · rw [(iterate_neonLoopBody j).2.1, Bool.eq_false_iff, ne_eq, chunkHasNul_iff]
      rintro ⟨lane, hlane⟩
      exact virtualByte_ne_zero hname (by omega) hlane
    · rw [hchunk, chunkHasNul_iff]
      exact ⟨r, by simpa [virtualChunk, hsplit] using virtualByte_end hname⟩
  have hfinish := @neonFinish_spec name ((neonLoopBody mem)^[chunks] (neonStart mem name))
    r (fun lane hlane ↦ by
      rw [hchunk]
      exact virtualByte_ne_zero hname (by have := Fin.lt_def.mp hlane; omega))
    (by simpa [hchunk, virtualChunk, hsplit] using virtualByte_end hname)
  rw [calculateGnuHashNeon, hloop, Option.map_some, hfinish, hvalue, hchunk, ← hornerFold_append,
    ← virtualDigits_add_take _ _ r.isLt.le, hsplit, hornerFold_virtualDigits_end hname, hptr]
  congr 2
  have hlength : ((name - name % 8 + 8 * chunks : ℕ) : ℤ) - name + r.val = s.length := by
    omega
  have hmod : ((s.length : ℤ) % 2 ^ 32).toNat = s.length % 2 ^ 32 := by omega
  rw [hlength, UInt32.ofInt, hmod, UInt32.ofNat_mod_size]

/-- Memory holding the name `abc` at address 5, after three nonzero bytes of its aligned chunk
and followed by its NUL byte and more nonzero bytes. -/
def misalignedAbc : Memory := fun address ↦
  if address = 5 then 97 else if address = 6 then 98 else if address = 7 then 99
  else if address = 8 then 0 else 0xaa

theorem calculateGnuHashNeon_eq_simple_misalignedAbc :
    calculateGnuHashNeon misalignedAbc 5 2 = calculateGnuHashSimple misalignedAbc 5 4 ∧
      calculateGnuHashSimple misalignedAbc 5 4 = some (gnuHash [97, 98, 99], UInt32.ofNat 3) :=
  calculateGnuHashNeon_eq_simple misalignedAbc 5 [97, 98, 99] ⟨by simp, by decide, by decide⟩
    2 4 (by decide) (by decide)

end Bionic.Linker.GnuHash
