import Mathlib.Data.List.Basic
import Mathlib.Algebra.Order.Ring.Nat

/-!
# malloc_debug: the backtraces of the pointer tables

`PointerData` records with every live pointer (`pointers_`) and every queued freed one
(`free_pointers_`) the index of its backtrace. The backtraces are shared: `key_to_index_` maps a
frame vector to its index, `frames_` an index to its frames and the number of entries that refer
to it, and with `BACKTRACE_FULL` `backtraces_info_` holds the unwinder's data per index.
`AddBacktrace` takes a reference, to an existing index or to a new one, `cur_hash_index_++`; the
index `kBacktraceEmptyIndex` (or 0, when backtraces are off) stands for no backtrace.
`RemoveBacktrace` drops a reference and erases the index at zero. `Add`, `Remove` and `AddFreed`
(which pushes the oldest freed pointer out of a full queue) take and drop the references of their
entries; `debug_realloc` is a `Remove` and an `Add`.

The maps are functions to `Option`, the two containers lists, the mangling of pointers (an `xor`,
undone on every read) is left out, and the unwinder's result is an input of each operation. The
freed pointer's contents check (`VerifyFreedPointer`) is in `PointerData.lean`.

`Inv` holds after every run in which every `Add` is for a pointer not in `pointers_` and
`cur_hash_index_` stays below `2 ^ w - 1` (`inv_run`, `run_consistent`): every index above
`kBacktraceEmptyIndex` has as many references as entries of the two containers name it, `frames_`
holds exactly the named ones, `key_to_index_` and `frames_` are inverse, `backtraces_info_` has the
keys of `frames_`, the queue holds at most `free_track_allocations()` entries, and
`RemoveBacktrace` never meets an index it lacks. `cur_hash_index_` is a `size_t`: once it wraps, a new backtrace gets the
index of a live one, `frames_.emplace` keeps the old entry, and both the count and the inverse
break (`curHashIndex_wrap_breaks_references`).
-/

set_option autoImplicit false
set_option relaxedAutoImplicit false

namespace Bionic.MallocDebug.Backtraces

/-! ### The model -/

/-- `kBacktraceEmptyIndex`. -/
def kBacktraceEmptyIndex : ℕ := 1

/-- The options `PointerData` reads; `free_track_allocations` is at least 1 (`Config::SetFreeTrack`). -/
structure Config where
  backtraceFull : Bool
  backtraceSpecificSizes : Bool
  backtraceMinSizeBytes : ℕ
  backtraceMaxSizeBytes : ℕ
  freeTrackAllocations : ℕ
  freeTrackAllocations_pos : 0 < freeTrackAllocations
  freeTrackBacktraceNumFrames : ℕ

/-- `PointerInfoType`. -/
structure PointerInfo where
  size : ℕ
  hashIndex : ℕ
  deriving DecidableEq, Repr

/-- `FreePointerInfoType`. -/
structure FreePointerInfo where
  mangledPtr : ℕ
  hashIndex : ℕ
  deriving DecidableEq, Repr

/-- `FrameInfoType`. -/
structure FrameInfo where
  references : ℕ
  frames : List ℕ
  deriving DecidableEq, Repr

/-- The reports of `error_log`. -/
inductive LogEntry where
  /-- `No tracked pointer found for ...`. -/
  | noTrackedPointer (ptr : ℕ)
  /-- `hash_index ... does not have matching frame data.` -/
  | noMatchingFrames (hashIndex : ℕ)
  deriving DecidableEq, Repr

/-- The tables, with `ι` the unwinder's data of `BACKTRACE_FULL`. -/
structure Tables (ι : Type) where
  pointers : List (ℕ × PointerInfo)
  freePointers : List FreePointerInfo
  frames : ℕ → Option FrameInfo
  keyToIndex : List ℕ → Option ℕ
  backtracesInfo : ℕ → Option ι
  curHashIndex : ℕ
  backtraceEnabled : Bool
  log : List LogEntry

variable {ι : Type}

/-- `PointerData::Initialize`: empty tables, the first index after `kBacktraceEmptyIndex`. -/
def Tables.init (backtraceEnabled : Bool) : Tables ι :=
  ⟨[], [], fun _ ↦ none, fun _ ↦ none, fun _ ↦ none, kBacktraceEmptyIndex + 1, backtraceEnabled, []⟩

/-- `std::unordered_map::emplace`: a key already there keeps its value. -/
def emplace {κ α : Type} [DecidableEq κ] (m : κ → Option α) (k : κ) (v : α) : κ → Option α :=
  if (m k).isSome then m else Function.update m k (some v)

/-- `ShouldBacktraceAllocSize(size_bytes)`. -/
def shouldBacktraceAllocSize (cfg : Config) (sizeBytes : ℕ) : Bool :=
  !cfg.backtraceSpecificSizes ||
    (cfg.backtraceMinSizeBytes ≤ sizeBytes && sizeBytes ≤ cfg.backtraceMaxSizeBytes)

section Operations

variable (cfg : Config) (sizeBits : ℕ)

/-- `PointerData::AddBacktrace(num_frames, size_bytes)`, `unwound` being what the unwinder found
(`none` when it fails or finds no frame): the index, and the tables. -/
def addBacktrace (t : Tables ι) (sizeBytes : ℕ) (unwound : Option (List ℕ × ι)) : ℕ × Tables ι :=
  if !shouldBacktraceAllocSize cfg sizeBytes then (kBacktraceEmptyIndex, t)
  else
    match unwound with
    | none => (kBacktraceEmptyIndex, t)
    | some (frames, framesInfo) =>
      match t.keyToIndex frames with
      | none =>
        -- `cur_hash_index_++` on a `size_t`
        (t.curHashIndex,
          { t with
            curHashIndex := (t.curHashIndex + 1) % 2 ^ sizeBits
            keyToIndex := Function.update t.keyToIndex frames (some t.curHashIndex)
            frames := emplace t.frames t.curHashIndex ⟨1, frames⟩
            backtracesInfo :=
              if cfg.backtraceFull then emplace t.backtracesInfo t.curHashIndex framesInfo
              else t.backtracesInfo })
      | some hashIndex =>
        -- `frames_[hash_index]` makes an empty entry for an index it lacks
        let info := (t.frames hashIndex).getD ⟨0, []⟩
        (hashIndex,
          { t with
            frames := Function.update t.frames hashIndex
              (some { info with references := info.references + 1 }) })

/-- `PointerData::RemoveBacktrace(hash_index)`. -/
def removeBacktrace (t : Tables ι) (hashIndex : ℕ) : Tables ι :=
  if hashIndex ≤ kBacktraceEmptyIndex then t
  else
    match t.frames hashIndex with
    | none => { t with log := t.log ++ [.noMatchingFrames hashIndex] }
    | some info =>
      -- an entry is made with one reference and erased at none: `references` is not 0 here
      if info.references - 1 = 0 then
        { t with
          keyToIndex := Function.update t.keyToIndex info.frames none
          frames := Function.update t.frames hashIndex none
          backtracesInfo :=
            if cfg.backtraceFull then Function.update t.backtracesInfo hashIndex none
            else t.backtracesInfo }
      else
        { t with
          frames := Function.update t.frames hashIndex
            (some { info with references := info.references - 1 }) }

/-- `PointerData::Add(ptr, pointer_size)`. -/
def add (t : Tables ι) (ptr pointerSize : ℕ) (unwound : Option (List ℕ × ι)) : Tables ι :=
  let r := if t.backtraceEnabled then addBacktrace cfg sizeBits t pointerSize unwound else (0, t)
  -- `pointers_[mangled_ptr] = ...`
  { r.2 with pointers := (ptr, ⟨pointerSize, r.1⟩) :: r.2.pointers.filter (·.1 ≠ ptr) }

/-- `PointerData::Remove(ptr)`. -/
def remove (t : Tables ι) (ptr : ℕ) : Tables ι :=
  match t.pointers.lookup ptr with
  | none => { t with log := t.log ++ [.noTrackedPointer ptr] }
  | some info => removeBacktrace cfg { t with pointers := t.pointers.filter (·.1 ≠ ptr) } info.hashIndex

/-- `PointerData::AddFreed(ptr, size_bytes)`: the pointer pushed out of a full queue, if any, and
the tables. -/
def addFreed (t : Tables ι) (ptr sizeBytes : ℕ) (unwound : Option (List ℕ × ι)) :
    Option ℕ × Tables ι :=
  let r := if cfg.freeTrackBacktraceNumFrames ≠ 0 then addBacktrace cfg sizeBits t sizeBytes unwound
    else (0, t)
  let popped : Option ℕ × Tables ι :=
    match r.2.freePointers with
    | info :: rest =>
      if r.2.freePointers.length = cfg.freeTrackAllocations then
        (some info.mangledPtr, removeBacktrace cfg { r.2 with freePointers := rest } info.hashIndex)
      else (none, r.2)
    | [] => (none, r.2)
  (popped.1, { popped.2 with freePointers := popped.2.freePointers ++ [⟨ptr, r.1⟩] })

/-- The operations malloc_debug makes on the tables; `ToggleBacktraceEnabled` is the signal
handler that flips `backtrace_enabled_`. -/
inductive Op (ι : Type) where
  | add (ptr size : ℕ) (unwound : Option (List ℕ × ι))
  | remove (ptr : ℕ)
  | addFreed (ptr size : ℕ) (unwound : Option (List ℕ × ι))
  /-- `debug_realloc` moving `ptr` to `newPtr`: `Remove(ptr)`, then `Add(newPtr, size)`. -/
  | realloc (ptr newPtr size : ℕ) (unwound : Option (List ℕ × ι))
  | toggleBacktraceEnabled

/-- One operation. -/
def step (t : Tables ι) : Op ι → Tables ι
  | .add ptr size unwound => add cfg sizeBits t ptr size unwound
  | .remove ptr => remove cfg t ptr
  | .addFreed ptr size unwound => (addFreed cfg sizeBits t ptr size unwound).2
  | .realloc ptr newPtr size unwound => add cfg sizeBits (remove cfg t ptr) newPtr size unwound
  | .toggleBacktraceEnabled => { t with backtraceEnabled := !t.backtraceEnabled }

/-- The tables after a sequence of operations. -/
def run (t : Tables ι) (ops : List (Op ι)) : Tables ι := ops.foldl (step cfg sizeBits) t

end Operations

/-! ### The invariant -/

/-- The references `frames_` records for `h`, 0 for an index it lacks. -/
def refsOf (t : Tables ι) (h : ℕ) : ℕ := ((t.frames h).map FrameInfo.references).getD 0

/-- The entries of `pointers_` and `free_pointers_` that name the index `h`. -/
def count (t : Tables ι) (h : ℕ) : ℕ :=
  t.pointers.countP (fun e ↦ e.2.hashIndex = h) + t.freePointers.countP (fun e ↦ e.hashIndex = h)

/-- The shape of the tables: `key_to_index_` and `frames_` inverse, the live indices between
`kBacktraceEmptyIndex` and `cur_hash_index_`, each with a reference, `backtraces_info_` on the
keys of `frames_` (with `BACKTRACE_FULL`), one entry per pointer, the queue within its bound, and
no report of a missing index. -/
structure Shape (cfg : Config) (t : Tables ι) : Prop where
  key_frames : ∀ k h, t.keyToIndex k = some h → ∃ info, t.frames h = some info ∧ info.frames = k
  frames_key : ∀ h info, t.frames h = some info → t.keyToIndex info.frames = some h
  frames_range : ∀ h info, t.frames h = some info → kBacktraceEmptyIndex < h ∧ h < t.curHashIndex
  refs_pos : ∀ h info, t.frames h = some info → 0 < info.references
  info_dom : ∀ h, (t.backtracesInfo h).isSome = (cfg.backtraceFull && (t.frames h).isSome)
  cur_gt : kBacktraceEmptyIndex < t.curHashIndex
  pointers_nodup : (t.pointers.map Prod.fst).Nodup
  free_le : t.freePointers.length ≤ cfg.freeTrackAllocations
  no_missing : ∀ h, LogEntry.noMatchingFrames h ∉ t.log

/-- The invariant: the shape, and every index above `kBacktraceEmptyIndex` with as many
references as entries name it. -/
structure Inv (cfg : Config) (t : Tables ι) : Prop extends Shape cfg t where
  balanced : ∀ h, kBacktraceEmptyIndex < h → refsOf t h = count t h

theorem inv_init (cfg : Config) (backtraceEnabled : Bool) :
    Inv cfg (Tables.init backtraceEnabled : Tables ι) := by
  refine ⟨⟨?_, ?_, ?_, ?_, ?_, ?_, ?_, ?_, ?_⟩, ?_⟩ <;>
    simp [Tables.init, refsOf, count, kBacktraceEmptyIndex]

variable {cfg : Config} {sizeBits : ℕ} {t : Tables ι}

theorem refsOf_eq_zero_iff (hshape : Shape cfg t) (h : ℕ) : refsOf t h = 0 ↔ t.frames h = none := by
  unfold refsOf
  cases hf : t.frames h with
  | none => simp
  | some info => simpa using Nat.pos_iff_ne_zero.mp (hshape.refs_pos h info hf)

theorem Shape.frames_injective (hshape : Shape cfg t) {h₁ h₂ : ℕ} {info₁ info₂ : FrameInfo}
    (h₁some : t.frames h₁ = some info₁) (h₂some : t.frames h₂ = some info₂)
    (hframes : info₁.frames = info₂.frames) : h₁ = h₂ := by
  have hk₁ := hshape.frames_key h₁ info₁ h₁some
  have hk₂ := hshape.frames_key h₂ info₂ h₂some
  rw [hframes, hk₂] at hk₁
  exact (Option.some.inj hk₁).symm

theorem emplace_of_none {κ α : Type} [DecidableEq κ] {m : κ → Option α} {k : κ} (h : m k = none)
    (v : α) : emplace m k v = Function.update m k (some v) := by
  simp [emplace, h]

theorem refsOf_update_frames (t : Tables ι) (h : ℕ) (v : Option FrameInfo) (x : ℕ) :
    refsOf { t with frames := Function.update t.frames h v } x =
      if x = h then (v.map FrameInfo.references).getD 0 else refsOf t x := by
  by_cases hx : x = h
  · subst hx
    simp [refsOf]
  · simp [refsOf, hx]

/-! ### The shape under the three writes to `frames_` -/

theorem Shape.insert (hs : Shape cfg t) {frames : List ℕ} (hkey : t.keyToIndex frames = none)
    (info : Option ι) (hinfo : info.isSome = cfg.backtraceFull) {cur : ℕ}
    (hcur : t.curHashIndex < cur) :
    Shape cfg { t with
      curHashIndex := cur
      keyToIndex := Function.update t.keyToIndex frames (some t.curHashIndex)
      frames := Function.update t.frames t.curHashIndex (some ⟨1, frames⟩)
      backtracesInfo := Function.update t.backtracesInfo t.curHashIndex info } := by
  have hfree : t.frames t.curHashIndex = none := by
    cases hf : t.frames t.curHashIndex with
    | none => rfl
    | some i => exact absurd (hs.frames_range _ i hf).2 (Nat.lt_irrefl _)
  refine ⟨?_, ?_, ?_, ?_, ?_, ?_, hs.pointers_nodup, hs.free_le, hs.no_missing⟩
  · intro k h hk
    dsimp only at hk ⊢
    by_cases hkf : k = frames
    · subst hkf
      simp only [Function.update_self, Option.some.injEq] at hk
      subst hk
      exact ⟨⟨1, k⟩, by simp, rfl⟩
    · rw [Function.update_of_ne hkf] at hk
      obtain ⟨i, hi, hik⟩ := hs.key_frames k h hk
      have hne : h ≠ t.curHashIndex := by
        rintro rfl
        rw [hfree] at hi
        cases hi
      exact ⟨i, by simpa [Function.update_of_ne hne] using hi, hik⟩
  · intro h i hi
    dsimp only at hi ⊢
    by_cases hh : h = t.curHashIndex
    · subst hh
      simp only [Function.update_self, Option.some.injEq] at hi
      subst hi
      simp
    · rw [Function.update_of_ne hh] at hi
      have hk := hs.frames_key h i hi
      have hne : i.frames ≠ frames := by
        rintro rfl
        rw [hkey] at hk
        cases hk
      simpa [Function.update_of_ne hne] using hk
  · intro h i hi
    dsimp only at hi ⊢
    have hgt := hs.cur_gt
    by_cases hh : h = t.curHashIndex
    · subst hh
      exact ⟨hgt, hcur⟩
    · rw [Function.update_of_ne hh] at hi
      have hr := hs.frames_range h i hi
      exact ⟨hr.1, Nat.lt_trans hr.2 hcur⟩
  · intro h i hi
    dsimp only at hi ⊢
    by_cases hh : h = t.curHashIndex
    · subst hh
      simp only [Function.update_self, Option.some.injEq] at hi
      subst hi
      exact Nat.one_pos
    · rw [Function.update_of_ne hh] at hi
      exact hs.refs_pos h i hi
  · intro h
    dsimp only
    by_cases hh : h = t.curHashIndex
    · subst hh
      simp [hinfo]
    · simpa [Function.update_of_ne hh] using hs.info_dom h
  · exact Nat.lt_trans hs.cur_gt hcur

/-- A live index given another positive number of references, as `AddBacktrace` does for known
frames and `RemoveBacktrace` above one reference. -/
theorem Shape.setReferences (hs : Shape cfg t) {h : ℕ} {info : FrameInfo}
    (hf : t.frames h = some info) {n : ℕ} (hn : 0 < n) :
    Shape cfg { t with frames := Function.update t.frames h (some { info with references := n }) } := by
  refine ⟨?_, ?_, ?_, ?_, ?_, hs.cur_gt, hs.pointers_nodup, hs.free_le, hs.no_missing⟩
  · intro k h' hk
    dsimp only at hk ⊢
    obtain ⟨i, hi, hik⟩ := hs.key_frames k h' hk
    by_cases hh : h' = h
    · subst hh
      rw [hf] at hi
      cases hi
      exact ⟨_, Function.update_self .., hik⟩
    · exact ⟨i, by simpa [Function.update_of_ne hh] using hi, hik⟩
  · intro h' i hi
    dsimp only at hi ⊢
    by_cases hh : h' = h
    · subst hh
      simp only [Function.update_self, Option.some.injEq] at hi
      subst hi
      exact hs.frames_key h' info hf
    · rw [Function.update_of_ne hh] at hi
      exact hs.frames_key h' i hi
  · intro h' i hi
    dsimp only at hi ⊢
    by_cases hh : h' = h
    · subst hh
      exact hs.frames_range h' info hf
    · rw [Function.update_of_ne hh] at hi
      exact hs.frames_range h' i hi
  · intro h' i hi
    dsimp only at hi ⊢
    by_cases hh : h' = h
    · subst hh
      simp only [Function.update_self, Option.some.injEq] at hi
      subst hi
      exact hn
    · rw [Function.update_of_ne hh] at hi
      exact hs.refs_pos h' i hi
  · intro h'
    dsimp only
    by_cases hh : h' = h
    · subst hh
      simpa [hf] using hs.info_dom h'
    · simpa [Function.update_of_ne hh] using hs.info_dom h'

theorem Shape.erase (hs : Shape cfg t) {h : ℕ} {info : FrameInfo} (hf : t.frames h = some info) :
    Shape cfg { t with
      keyToIndex := Function.update t.keyToIndex info.frames none
      frames := Function.update t.frames h none
      backtracesInfo := Function.update t.backtracesInfo h none } := by
  refine ⟨?_, ?_, ?_, ?_, ?_, hs.cur_gt, hs.pointers_nodup, hs.free_le, hs.no_missing⟩
  · intro k h' hk
    dsimp only at hk ⊢
    by_cases hkf : k = info.frames
    · subst hkf
      simp at hk
    · rw [Function.update_of_ne hkf] at hk
      obtain ⟨i, hi, hik⟩ := hs.key_frames k h' hk
      have hne : h' ≠ h := by
        rintro rfl
        rw [hf] at hi
        cases hi
        exact hkf hik.symm
      exact ⟨i, by simpa [Function.update_of_ne hne] using hi, hik⟩
  · intro h' i hi
    dsimp only at hi ⊢
    by_cases hh : h' = h
    · subst hh
      simp at hi
    · rw [Function.update_of_ne hh] at hi
      have hne : i.frames ≠ info.frames := fun heq ↦ hh (hs.frames_injective hi hf heq)
      simpa [Function.update_of_ne hne] using hs.frames_key h' i hi
  · intro h' i hi
    dsimp only at hi ⊢
    by_cases hh : h' = h
    · subst hh
      simp at hi
    · rw [Function.update_of_ne hh] at hi
      exact hs.frames_range h' i hi
  · intro h' i hi
    dsimp only at hi ⊢
    by_cases hh : h' = h
    · subst hh
      simp at hi
    · rw [Function.update_of_ne hh] at hi
      exact hs.refs_pos h' i hi
  · intro h'
    dsimp only
    by_cases hh : h' = h
    · subst hh
      simp
    · simpa [Function.update_of_ne hh] using hs.info_dom h'

/-! ### `AddBacktrace` -/

section AddBacktrace

variable (cfg sizeBits) in
/-- What the index taken for an entry can be: one at most `kBacktraceEmptyIndex` with the tables
unchanged, the new index `cur_hash_index_` for frames `key_to_index_` lacks, or one more
reference to the index of known frames. -/
inductive AddEffect (t : Tables ι) : ℕ × Tables ι → Prop
  | skip (i : ℕ) (hi : i ≤ kBacktraceEmptyIndex) : AddEffect t (i, t)
  | new (frames : List ℕ) (framesInfo : ι) (hkey : t.keyToIndex frames = none) :
      AddEffect t (t.curHashIndex,
        { t with
          curHashIndex := (t.curHashIndex + 1) % 2 ^ sizeBits
          keyToIndex := Function.update t.keyToIndex frames (some t.curHashIndex)
          frames := emplace t.frames t.curHashIndex ⟨1, frames⟩
          backtracesInfo :=
            if cfg.backtraceFull then emplace t.backtracesInfo t.curHashIndex framesInfo
            else t.backtracesInfo })
  | known (frames : List ℕ) (h : ℕ) (hkey : t.keyToIndex frames = some h) :
      AddEffect t (h,
        { t with
          frames := Function.update t.frames h
            (some { (t.frames h).getD ⟨0, []⟩ with
              references := ((t.frames h).getD ⟨0, []⟩).references + 1 }) })

variable (cfg sizeBits) in
theorem addBacktrace_effect (t : Tables ι) (sizeBytes : ℕ) (unwound : Option (List ℕ × ι)) :
    AddEffect cfg sizeBits t (addBacktrace cfg sizeBits t sizeBytes unwound) := by
  unfold addBacktrace
  by_cases hsize : shouldBacktraceAllocSize cfg sizeBytes = true
  · rw [if_neg (by simp [hsize])]
    rcases unwound with _ | ⟨frames, framesInfo⟩
    · exact .skip _ (Nat.le_refl _)
    · dsimp only
      cases hkey : t.keyToIndex frames with
      | none => exact .new frames framesInfo hkey
      | some h => exact .known frames h hkey
  · rw [if_pos (by simpa using hsize)]
    exact .skip _ (Nat.le_refl _)

variable (cfg sizeBits) in
theorem ite_addBacktrace_effect (c : Prop) [Decidable c] (t : Tables ι) (sizeBytes : ℕ)
    (unwound : Option (List ℕ × ι)) :
    AddEffect cfg sizeBits t (if c then addBacktrace cfg sizeBits t sizeBytes unwound else (0, t)) := by
  by_cases hc : c
  · rw [if_pos hc]
    exact addBacktrace_effect cfg sizeBits t sizeBytes unwound
  · rw [if_neg hc]
    exact .skip 0 (Nat.zero_le _)

variable {r : ℕ × Tables ι}

theorem AddEffect.frame (he : AddEffect cfg sizeBits t r) :
    r.2.pointers = t.pointers ∧ r.2.freePointers = t.freePointers ∧ r.2.log = t.log ∧
      r.2.backtraceEnabled = t.backtraceEnabled := by
  cases he <;> exact ⟨rfl, rfl, rfl, rfl⟩

theorem AddEffect.shape (he : AddEffect cfg sizeBits t r) (hs : Shape cfg t)
    (hwrap : t.curHashIndex + 1 < 2 ^ sizeBits) : Shape cfg r.2 := by
  cases he with
  | skip i hi => exact hs
  | new frames framesInfo hkey =>
    have hfree : t.frames t.curHashIndex = none := by
      cases hf : t.frames t.curHashIndex with
      | none => rfl
      | some i => exact absurd (hs.frames_range _ i hf).2 (Nat.lt_irrefl _)
    have hinfo : t.backtracesInfo t.curHashIndex = none := by
      simpa [hfree] using hs.info_dom t.curHashIndex
    have hcur : (t.curHashIndex + 1) % 2 ^ sizeBits = t.curHashIndex + 1 := Nat.mod_eq_of_lt hwrap
    have hbi : (if cfg.backtraceFull then emplace t.backtracesInfo t.curHashIndex framesInfo
        else t.backtracesInfo) = Function.update t.backtracesInfo t.curHashIndex
          (if cfg.backtraceFull then some framesInfo else none) := by
      by_cases hfull : cfg.backtraceFull = true
      · simp [hfull, emplace_of_none hinfo]
      · simp [hfull, ← hinfo]
    dsimp only
    rw [hcur, emplace_of_none hfree, hbi]
    exact hs.insert hkey _ (by by_cases hfull : cfg.backtraceFull = true <;> simp [hfull])
      (Nat.lt_succ_self _)
  | known frames h hkey =>
    obtain ⟨info, hf, -⟩ := hs.key_frames frames h hkey
    dsimp only
    rw [hf]
    exact hs.setReferences hf (Nat.succ_pos _)

/-- Taking an index adds one reference to it, and to no other index above
`kBacktraceEmptyIndex`. -/
theorem AddEffect.refsOf_eq (he : AddEffect cfg sizeBits t r) (hs : Shape cfg t) {x : ℕ}
    (hx : kBacktraceEmptyIndex < x) : refsOf r.2 x = refsOf t x + if r.1 = x then 1 else 0 := by
  cases he with
  | skip i hi =>
    have hne : i ≠ x := by unfold kBacktraceEmptyIndex at hi hx; omega
    simp [hne]
  | new frames framesInfo hkey =>
    have hfree : t.frames t.curHashIndex = none := by
      cases hf : t.frames t.curHashIndex with
      | none => rfl
      | some i => exact absurd (hs.frames_range _ i hf).2 (Nat.lt_irrefl _)
    dsimp only
    rw [emplace_of_none hfree]
    by_cases hxc : x = t.curHashIndex
    · subst hxc
      simp [refsOf, hfree]
    · simp [refsOf, Function.update_of_ne hxc, Ne.symm hxc]
  | known frames h hkey =>
    obtain ⟨info, hf, -⟩ := hs.key_frames frames h hkey
    dsimp only
    rw [refsOf_update_frames]
    by_cases hxh : x = h
    · subst hxh
      simp [refsOf, hf]
    · simp [hxh, Ne.symm hxh]

end AddBacktrace

/-! ### `RemoveBacktrace` -/

section RemoveBacktrace

variable (cfg) in
/-- What `RemoveBacktrace(hash_index)` can do: nothing for an index at most
`kBacktraceEmptyIndex`, report an index `frames_` lacks, erase the index and its key at the last
reference, or drop one reference. -/
inductive RemoveEffect (t : Tables ι) (h : ℕ) : Tables ι → Prop
  | skip (hh : h ≤ kBacktraceEmptyIndex) : RemoveEffect t h t
  | missing (hh : kBacktraceEmptyIndex < h) (hf : t.frames h = none) :
      RemoveEffect t h { t with log := t.log ++ [.noMatchingFrames h] }
  | erase (info : FrameInfo) (hh : kBacktraceEmptyIndex < h) (hf : t.frames h = some info)
      (hlast : info.references - 1 = 0) :
      RemoveEffect t h
        { t with
          keyToIndex := Function.update t.keyToIndex info.frames none
          frames := Function.update t.frames h none
          backtracesInfo :=
            if cfg.backtraceFull then Function.update t.backtracesInfo h none
            else t.backtracesInfo }
  | release (info : FrameInfo) (hh : kBacktraceEmptyIndex < h) (hf : t.frames h = some info)
      (hlast : info.references - 1 ≠ 0) :
      RemoveEffect t h
        { t with
          frames := Function.update t.frames h (some { info with references := info.references - 1 }) }

variable (cfg) in
theorem removeBacktrace_effect (t : Tables ι) (h : ℕ) :
    RemoveEffect cfg t h (removeBacktrace cfg t h) := by
  unfold removeBacktrace
  by_cases hh : h ≤ kBacktraceEmptyIndex
  · rw [if_pos hh]
    exact .skip hh
  · rw [if_neg hh]
    have hh : kBacktraceEmptyIndex < h := Nat.lt_of_not_le hh
    cases hf : t.frames h with
    | none => exact .missing hh hf
    | some info =>
      dsimp only
      by_cases hlast : info.references - 1 = 0
      · rw [if_pos hlast]
        exact .erase info hh hf hlast
      · rw [if_neg hlast]
        exact .release info hh hf hlast

variable (cfg) in
theorem removeBacktrace_withFreePointers (t : Tables ι) (fs : List FreePointerInfo) (h : ℕ) :
    removeBacktrace cfg { t with freePointers := fs } h =
      { removeBacktrace cfg t h with freePointers := fs } := by
  unfold removeBacktrace
  by_cases hh : h ≤ kBacktraceEmptyIndex
  · simp only [if_pos hh]
  · simp only [if_neg hh]
    cases t.frames h with
    | none => rfl
    | some info =>
      by_cases hlast : info.references - 1 = 0
      · simp only [if_pos hlast]
      · simp only [if_neg hlast]

variable {h : ℕ} {t' : Tables ι}

theorem RemoveEffect.frame (he : RemoveEffect cfg t h t') :
    t'.pointers = t.pointers ∧ t'.freePointers = t.freePointers ∧
      t'.backtraceEnabled = t.backtraceEnabled ∧ t'.curHashIndex = t.curHashIndex := by
  cases he <;> exact ⟨rfl, rfl, rfl, rfl⟩

theorem RemoveEffect.shape (he : RemoveEffect cfg t h t') (hs : Shape cfg t)
    (hlive : kBacktraceEmptyIndex < h → (t.frames h).isSome) : Shape cfg t' := by
  cases he with
  | skip hh => exact hs
  | missing hh hf => exact absurd (hlive hh) (by simp [hf])
  | erase info hh hf hlast =>
    have hbi : (if cfg.backtraceFull then Function.update t.backtracesInfo h none
        else t.backtracesInfo) = Function.update t.backtracesInfo h none := by
      by_cases hfull : cfg.backtraceFull = true
      · simp [hfull]
      · have hnone : t.backtracesInfo h = none := by simpa [hfull] using hs.info_dom h
        simp [hfull, ← hnone]
    rw [hbi]
    exact hs.erase hf
  | release info hh hf hlast => exact hs.setReferences hf (Nat.pos_of_ne_zero hlast)

/-- Dropping a reference to an index `frames_` holds takes one from it, and from no other index
above `kBacktraceEmptyIndex`. -/
theorem RemoveEffect.refsOf_eq (he : RemoveEffect cfg t h t') (hs : Shape cfg t)
    (hlive : kBacktraceEmptyIndex < h → (t.frames h).isSome) {x : ℕ}
    (hx : kBacktraceEmptyIndex < x) : refsOf t' x + (if h = x then 1 else 0) = refsOf t x := by
  cases he with
  | skip hh =>
    have hne : h ≠ x := by unfold kBacktraceEmptyIndex at hh hx; omega
    simp [hne]
  | missing hh hf => exact absurd (hlive hh) (by simp [hf])
  | erase info hh hf hlast =>
    have hpos := hs.refs_pos h info hf
    unfold refsOf
    by_cases hxh : x = h
    · subst hxh
      simp [hf]
      omega
    · simp [Function.update_of_ne hxh, Ne.symm hxh]
  | release info hh hf hlast =>
    have hpos := hs.refs_pos h info hf
    rw [refsOf_update_frames]
    by_cases hxh : x = h
    · subst hxh
      simp [refsOf, hf]
      omega
    · simp [hxh, Ne.symm hxh]

end RemoveBacktrace

/-! ### The operations keep the invariant -/

theorem countP_filter_ne_add {β : Type} (q : ℕ × β → Bool) (l : List (ℕ × β)) {ptr : ℕ} {v : β}
    (hnodup : (l.map Prod.fst).Nodup) (hl : l.lookup ptr = some v) :
    (l.filter (·.1 ≠ ptr)).countP q + (if q (ptr, v) then 1 else 0) = l.countP q := by
  induction l with
  | nil => simp at hl
  | cons e l ih =>
    obtain ⟨k, w⟩ := e
    rw [List.map_cons, List.nodup_cons] at hnodup
    by_cases hk : ptr = k
    · subst hk
      simp only [List.lookup_cons, beq_self_eq_true, Option.some.injEq] at hl
      subst hl
      have hrest : l.filter (·.1 ≠ ptr) = l := List.filter_eq_self.mpr fun e he ↦ by
        have hne : e.1 ≠ ptr := fun h ↦ hnodup.1 (List.mem_map.mpr ⟨e, he, h⟩)
        simpa using hne
      rw [List.filter_cons, if_neg (by simp), hrest, List.countP_cons]
    · have hbeq : (ptr == k) = false := by simpa using hk
      rw [List.lookup_cons, hbeq] at hl
      rw [List.filter_cons, if_pos (by simpa using Ne.symm hk), List.countP_cons, List.countP_cons,
        ← ih hnodup.2 hl]
      omega

theorem count_congr {t' : Tables ι} (hp : t'.pointers = t.pointers)
    (hf : t'.freePointers = t.freePointers) (x : ℕ) : count t' x = count t x := by
  simp [count, hp, hf]

theorem Shape.withPointers (hs : Shape cfg t) {ps : List (ℕ × PointerInfo)}
    (hps : (ps.map Prod.fst).Nodup) : Shape cfg { t with pointers := ps } :=
  ⟨hs.key_frames, hs.frames_key, hs.frames_range, hs.refs_pos, hs.info_dom, hs.cur_gt, hps,
    hs.free_le, hs.no_missing⟩

theorem Shape.withFreePointers (hs : Shape cfg t) {fs : List FreePointerInfo}
    (hfs : fs.length ≤ cfg.freeTrackAllocations) : Shape cfg { t with freePointers := fs } :=
  ⟨hs.key_frames, hs.frames_key, hs.frames_range, hs.refs_pos, hs.info_dom, hs.cur_gt,
    hs.pointers_nodup, hfs, hs.no_missing⟩

/-- `RemoveBacktrace(h)` on tables that hold one reference to `h` more than their entries name:
the entry was just taken out of its container. -/
theorem inv_removeBacktrace {h : ℕ} (hs : Shape cfg t)
    (hextra : ∀ x, kBacktraceEmptyIndex < x → refsOf t x = count t x + if h = x then 1 else 0) :
    Inv cfg (removeBacktrace cfg t h) := by
  have hlive : kBacktraceEmptyIndex < h → (t.frames h).isSome := fun hgt ↦ by
    have hpos : refsOf t h ≠ 0 := by simp [hextra h hgt]
    cases hf : t.frames h with
    | none => simp [refsOf, hf] at hpos
    | some info => rfl
  have he := removeBacktrace_effect cfg t h
  obtain ⟨hp, hfp, -, -⟩ := he.frame
  refine ⟨he.shape hs hlive, fun x hx ↦ ?_⟩
  have hrefs := he.refsOf_eq hs hlive hx
  rw [count_congr hp hfp]
  have := hextra x hx
  omega

variable {r : ℕ × Tables ι}

/-- After an index is taken, and before its entry is stored, the tables hold one reference to it
more than their entries name. -/
theorem Inv.refsOf_taken (hinv : Inv cfg t) (he : AddEffect cfg sizeBits t r) {x : ℕ}
    (hx : kBacktraceEmptyIndex < x) : refsOf r.2 x = count r.2 x + if r.1 = x then 1 else 0 := by
  obtain ⟨hp, hfp, -, -⟩ := he.frame
  rw [he.refsOf_eq hinv.toShape hx, hinv.balanced x hx, count_congr hp hfp]

theorem Inv.addEntry (hinv : Inv cfg t) (he : AddEffect cfg sizeBits t r)
    (hwrap : t.curHashIndex + 1 < 2 ^ sizeBits) {ptr : ℕ} (hfresh : ptr ∉ t.pointers.map Prod.fst)
    (size : ℕ) :
    Inv cfg { r.2 with pointers := (ptr, ⟨size, r.1⟩) :: r.2.pointers.filter (·.1 ≠ ptr) } := by
  obtain ⟨hp, -, -, -⟩ := he.frame
  have hs := he.shape hinv.toShape hwrap
  have hfilter : r.2.pointers.filter (·.1 ≠ ptr) = r.2.pointers := by
    rw [hp]
    refine List.filter_eq_self.mpr fun e he' ↦ ?_
    have hne : e.1 ≠ ptr := fun h ↦ hfresh (List.mem_map.mpr ⟨e, he', h⟩)
    simpa using hne
  rw [hfilter]
  have hnodup : ((ptr, (⟨size, r.1⟩ : PointerInfo)) :: r.2.pointers).map Prod.fst |>.Nodup := by
    rw [List.map_cons, List.nodup_cons, hp]
    exact ⟨hfresh, hinv.pointers_nodup⟩
  refine ⟨hs.withPointers hnodup, fun x hx ↦ ?_⟩
  show refsOf r.2 x = _
  rw [hinv.refsOf_taken he hx]
  simp only [count, List.countP_cons, decide_eq_true_eq]
  omega

theorem Inv.add (hinv : Inv cfg t) (hwrap : t.curHashIndex + 1 < 2 ^ sizeBits) {ptr : ℕ}
    (hfresh : ptr ∉ t.pointers.map Prod.fst) (size : ℕ) (unwound : Option (List ℕ × ι)) :
    Inv cfg (add cfg sizeBits t ptr size unwound) :=
  hinv.addEntry (ite_addBacktrace_effect cfg sizeBits _ t size unwound) hwrap hfresh size

theorem Inv.remove (hinv : Inv cfg t) (ptr : ℕ) : Inv cfg (remove cfg t ptr) := by
  unfold Backtraces.remove
  cases hl : t.pointers.lookup ptr with
  | none =>
    have hmissing : ∀ h, LogEntry.noMatchingFrames h ∉ t.log ++ [.noTrackedPointer ptr] := by
      simpa using hinv.no_missing
    exact ⟨{ hinv.toShape with no_missing := hmissing }, hinv.balanced⟩
  | some info =>
    dsimp only
    have hnodup := hinv.pointers_nodup
    refine inv_removeBacktrace
      (hinv.withPointers ((List.filter_sublist.map Prod.fst).nodup hnodup)) fun x hx ↦ ?_
    have := countP_filter_ne_add (fun e ↦ decide (e.2.hashIndex = x)) t.pointers hnodup hl
    show refsOf t x = _
    rw [hinv.balanced x hx]
    simp only [count, decide_eq_true_eq] at this ⊢
    omega

/-- The queue entry of `AddFreed`, with the index just taken; a full queue first gives up its
oldest entry and that entry's reference. -/
theorem Inv.freedEntry (hinv : Inv cfg t) (he : AddEffect cfg sizeBits t r)
    (hwrap : t.curHashIndex + 1 < 2 ^ sizeBits) (ptr : ℕ) :
    Inv cfg
      (let popped : Option ℕ × Tables ι :=
        match r.2.freePointers with
        | info :: rest =>
          if r.2.freePointers.length = cfg.freeTrackAllocations then
            (some info.mangledPtr, removeBacktrace cfg { r.2 with freePointers := rest } info.hashIndex)
          else (none, r.2)
        | [] => (none, r.2)
      { popped.2 with freePointers := popped.2.freePointers ++ [⟨ptr, r.1⟩] }) := by
  obtain ⟨-, hfp, -, -⟩ := he.frame
  have hs := he.shape hinv.toShape hwrap
  have hle : r.2.freePointers.length ≤ cfg.freeTrackAllocations := hfp ▸ hinv.free_le
  -- without a pop, the entry is stored at the back of a queue that has room for it
  have hpush : r.2.freePointers.length ≠ cfg.freeTrackAllocations →
      Inv cfg { r.2 with freePointers := r.2.freePointers ++ [⟨ptr, r.1⟩] } := fun hroom ↦ by
    refine ⟨hs.withFreePointers (by simp; omega), fun x hx ↦ ?_⟩
    show refsOf r.2 x = _
    rw [hinv.refsOf_taken he hx]
    simp only [count, List.countP_append, List.countP_singleton, decide_eq_true_eq]
    omega
  dsimp only
  cases hq : r.2.freePointers with
  | nil =>
    have hpos := cfg.freeTrackAllocations_pos
    simpa [hq] using hpush (by simp [hq]; omega)
  | cons info rest =>
    dsimp only
    by_cases hfull : (info :: rest).length = cfg.freeTrackAllocations
    · rw [if_pos hfull]
      dsimp only
      obtain ⟨-, hfp', -, -⟩ := (removeBacktrace_effect cfg { r.2 with freePointers := rest }
        info.hashIndex).frame
      rw [hfp', ← removeBacktrace_withFreePointers]
      refine inv_removeBacktrace (hs.withFreePointers (by simp at hfull ⊢; omega)) fun x hx ↦ ?_
      show refsOf r.2 x = _
      rw [hinv.refsOf_taken he hx]
      simp only [count, hq, List.countP_append, List.countP_cons, List.countP_nil,
        decide_eq_true_eq]
      omega
    · rw [if_neg hfull]
      simpa [hq] using hpush (by rw [hq]; exact hfull)

theorem Inv.addFreed (hinv : Inv cfg t) (hwrap : t.curHashIndex + 1 < 2 ^ sizeBits) (ptr size : ℕ)
    (unwound : Option (List ℕ × ι)) : Inv cfg (addFreed cfg sizeBits t ptr size unwound).2 :=
  hinv.freedEntry (ite_addBacktrace_effect cfg sizeBits _ t size unwound) hwrap ptr

variable (cfg) in
theorem remove_curHashIndex (t : Tables ι) (ptr : ℕ) :
    (remove cfg t ptr).curHashIndex = t.curHashIndex := by
  unfold remove
  cases t.pointers.lookup ptr with
  | none => rfl
  | some info => exact (removeBacktrace_effect cfg _ info.hashIndex).frame.2.2.2

/-! ### Runs -/

variable (cfg) in
/-- The promise of malloc_debug's call sites: every `Add`, also the one of a `realloc`, is for a
pointer not in `pointers_`. -/
def Op.Fresh (t : Tables ι) : Op ι → Prop
  | .add ptr _ _ => ptr ∉ t.pointers.map Prod.fst
  | .realloc ptr newPtr _ _ => newPtr ∉ (Backtraces.remove cfg t ptr).pointers.map Prod.fst
  | _ => True

variable (cfg sizeBits) in
/-- Every operation of a run meets `P` in the tables it starts from. -/
def Along (P : Tables ι → Op ι → Prop) (t : Tables ι) : List (Op ι) → Prop
  | [] => True
  | op :: ops => P t op ∧ Along P (step cfg sizeBits t op) ops

@[simp] theorem run_nil (t : Tables ι) : run cfg sizeBits t [] = t := rfl

theorem run_cons (t : Tables ι) (op : Op ι) (ops : List (Op ι)) :
    run cfg sizeBits t (op :: ops) = run cfg sizeBits (step cfg sizeBits t op) ops := rfl

theorem run_append (t : Tables ι) (ops₁ ops₂ : List (Op ι)) :
    run cfg sizeBits t (ops₁ ++ ops₂) = run cfg sizeBits (run cfg sizeBits t ops₁) ops₂ :=
  List.foldl_append

theorem along_append {P : Tables ι → Op ι → Prop} (t : Tables ι) (ops₁ ops₂ : List (Op ι)) :
    Along cfg sizeBits P t (ops₁ ++ ops₂) ↔
      Along cfg sizeBits P t ops₁ ∧ Along cfg sizeBits P (run cfg sizeBits t ops₁) ops₂ := by
  induction ops₁ generalizing t with
  | nil => simp [Along, run]
  | cons op ops ih => simp [Along, ih, run_cons, and_assoc]

theorem Inv.step (hinv : Inv cfg t) (hwrap : t.curHashIndex + 1 < 2 ^ sizeBits) {op : Op ι}
    (hfresh : op.Fresh cfg t) : Inv cfg (step cfg sizeBits t op) := by
  cases op with
  | add ptr size unwound => exact hinv.add hwrap hfresh size unwound
  | remove ptr => exact hinv.remove ptr
  | addFreed ptr size unwound => exact hinv.addFreed hwrap ptr size unwound
  | realloc ptr newPtr size unwound =>
    have hcur := remove_curHashIndex cfg t ptr
    exact (hinv.remove ptr).add (hcur ▸ hwrap) hfresh size unwound
  | toggleBacktraceEnabled => exact ⟨{ hinv.toShape with }, hinv.balanced⟩

theorem inv_run (hinv : Inv cfg t) (ops : List (Op ι))
    (hfresh : Along cfg sizeBits (fun t op ↦ op.Fresh cfg t) t ops)
    (hwrap : Along cfg sizeBits (fun t _ ↦ t.curHashIndex + 1 < 2 ^ sizeBits) t ops) :
    Inv cfg (run cfg sizeBits t ops) := by
  induction ops generalizing t with
  | nil => exact hinv
  | cons op ops ih =>
    rw [run_cons]
    exact ih (hinv.step hwrap.1 hfresh.1) hfresh.2 hwrap.2

/-- The properties the bookkeeping is meant to keep: every index above `kBacktraceEmptyIndex` with as
many references as entries name it, in `frames_` exactly when some entry names it, `key_to_index_`
inverse to `frames_` with distinct frames per index, `backtraces_info_` on the keys of `frames_`
with `BACKTRACE_FULL`, the queue within `free_track_allocations()`, and no `RemoveBacktrace` of an
index `frames_` lacks. -/
structure Consistent (cfg : Config) (t : Tables ι) : Prop where
  references : ∀ h, kBacktraceEmptyIndex < h → refsOf t h = count t h
  frames_iff : ∀ h, kBacktraceEmptyIndex < h → ((t.frames h).isSome ↔ 0 < count t h)
  key_inverse : ∀ h info, t.frames h = some info → t.keyToIndex info.frames = some h
  frames_distinct : ∀ h₁ h₂ info₁ info₂, t.frames h₁ = some info₁ → t.frames h₂ = some info₂ →
    info₁.frames = info₂.frames → h₁ = h₂
  info_keys : cfg.backtraceFull = true → ∀ h, (t.backtracesInfo h).isSome = (t.frames h).isSome
  free_le : t.freePointers.length ≤ cfg.freeTrackAllocations
  no_missing : ∀ h, LogEntry.noMatchingFrames h ∉ t.log

theorem Inv.consistent (hinv : Inv cfg t) : Consistent cfg t := by
  refine ⟨hinv.balanced, fun h hh ↦ ?_, hinv.frames_key, fun _ _ _ _ h₁ h₂ heq ↦
    hinv.frames_injective h₁ h₂ heq, fun hfull h ↦ by simpa [hfull] using hinv.info_dom h,
    hinv.free_le, hinv.no_missing⟩
  rw [← hinv.balanced h hh]
  cases hf : t.frames h with
  | none => simp [refsOf, hf]
  | some info => simpa [refsOf, hf] using hinv.refs_pos h info hf

/-- From `PointerData::Initialize`, the bookkeeping stays consistent over every run of fresh
`Add`s in which `cur_hash_index_` stays below `2 ^ w - 1`. -/
theorem run_consistent (backtraceEnabled : Bool) (ops : List (Op ι))
    (hfresh : Along cfg sizeBits (fun t op ↦ op.Fresh cfg t) (Tables.init backtraceEnabled) ops)
    (hwrap : Along cfg sizeBits (fun t _ ↦ t.curHashIndex + 1 < 2 ^ sizeBits)
      (Tables.init backtraceEnabled) ops) :
    Consistent cfg (run cfg sizeBits (Tables.init backtraceEnabled) ops) :=
  (inv_run (inv_init cfg backtraceEnabled) ops hfresh hwrap).consistent

/-! ### When `cur_hash_index_` wraps -/

/-- A `malloc` and a `free` of one pointer: its `Add`, then its `Remove`. -/
def allocFree (ptr size : ℕ) (frames : List ℕ) (framesInfo : ι) : List (Op ι) :=
  [.add ptr size (some (frames, framesInfo)), .remove ptr]

variable (cfg sizeBits) in
/-- An allocation with new frames, freed at once, leaves the tables as they were but for
`cur_hash_index_`, which it advances by one, modulo `2 ^ w`. -/
theorem run_allocFree (henabled : t.backtraceEnabled = true) {ptr size : ℕ} {frames : List ℕ}
    (framesInfo : ι) (hsize : shouldBacktraceAllocSize cfg size = true)
    (hkey : t.keyToIndex frames = none) (hfresh : ptr ∉ t.pointers.map Prod.fst)
    (hcur : kBacktraceEmptyIndex < t.curHashIndex) (hframes : t.frames t.curHashIndex = none)
    (hinfo : t.backtracesInfo t.curHashIndex = none) :
    run cfg sizeBits t (allocFree ptr size frames framesInfo) =
        { t with curHashIndex := (t.curHashIndex + 1) % 2 ^ sizeBits } ∧
      Along cfg sizeBits (fun t op ↦ op.Fresh cfg t) t (allocFree ptr size frames framesInfo) := by
  have hfilter : t.pointers.filter (fun e ↦ !decide (e.1 = ptr)) = t.pointers := by
    refine List.filter_eq_self.mpr fun e he ↦ ?_
    have hne : e.1 ≠ ptr := fun h ↦ hfresh (List.mem_map.mpr ⟨e, he, h⟩)
    simpa using hne
  have hadd : step cfg sizeBits t (.add ptr size (some (frames, framesInfo))) =
      { t with
        pointers := (ptr, ⟨size, t.curHashIndex⟩) :: t.pointers
        curHashIndex := (t.curHashIndex + 1) % 2 ^ sizeBits
        keyToIndex := Function.update t.keyToIndex frames (some t.curHashIndex)
        frames := Function.update t.frames t.curHashIndex (some ⟨1, frames⟩)
        backtracesInfo := if cfg.backtraceFull then
            Function.update t.backtracesInfo t.curHashIndex (some framesInfo)
          else t.backtracesInfo } := by
    simp [step, add, addBacktrace, henabled, hsize, hkey, emplace_of_none hframes,
      emplace_of_none hinfo, hfilter]
  refine ⟨?_, hfresh, ?_, trivial⟩
  · rw [allocFree, run_cons, hadd, run_cons, run_nil]
    by_cases hfull : cfg.backtraceFull = true
    · simp [step, remove, removeBacktrace, hfilter, Nat.not_le.mpr hcur, hfull,
        Function.update_eq_self_iff, hkey, hframes, hinfo]
    · simp [step, remove, removeBacktrace, hfilter, Nat.not_le.mpr hcur, hfull,
        Function.update_eq_self_iff, hkey, hframes]
  · rw [hadd]
    trivial

variable (cfg sizeBits) in
/-- `n` such allocations, each getting a free index above `kBacktraceEmptyIndex`, advance
`cur_hash_index_` by `n`, modulo `2 ^ w`, and change nothing else. -/
theorem run_allocFree_replicate (henabled : t.backtraceEnabled = true) {ptr size : ℕ}
    {frames : List ℕ} (framesInfo : ι) (hsize : shouldBacktraceAllocSize cfg size = true)
    (hkey : t.keyToIndex frames = none) (hfresh : ptr ∉ t.pointers.map Prod.fst)
    (hlt : t.curHashIndex < 2 ^ sizeBits) (n : ℕ)
    (hfree : ∀ j < n, kBacktraceEmptyIndex < (t.curHashIndex + j) % 2 ^ sizeBits ∧
      t.frames ((t.curHashIndex + j) % 2 ^ sizeBits) = none ∧
      t.backtracesInfo ((t.curHashIndex + j) % 2 ^ sizeBits) = none) :
    run cfg sizeBits t (List.replicate n (allocFree ptr size frames framesInfo)).flatten =
        { t with curHashIndex := (t.curHashIndex + n) % 2 ^ sizeBits } ∧
      Along cfg sizeBits (fun t op ↦ op.Fresh cfg t) t
        (List.replicate n (allocFree ptr size frames framesInfo)).flatten := by
  induction n with
  | zero => exact ⟨by simp [Nat.mod_eq_of_lt hlt], trivial⟩
  | succ n ih =>
    obtain ⟨hrun, hfresh'⟩ := ih fun j hj ↦ hfree j (Nat.lt_succ_of_lt hj)
    obtain ⟨hcur, hframes, hinfo⟩ := hfree n (Nat.lt_succ_self n)
    -- the last allocation starts from the tables the first `n` leave
    obtain ⟨hlast, hfresh''⟩ := run_allocFree cfg sizeBits
      (t := { t with curHashIndex := (t.curHashIndex + n) % 2 ^ sizeBits }) henabled framesInfo
      hsize hkey hfresh hcur hframes hinfo
    rw [List.replicate_succ', List.flatten_append, List.flatten_singleton, run_append,
      along_append, hrun]
    refine ⟨?_, hfresh', hfresh''⟩
    rw [hlast, Nat.mod_add_mod, Nat.add_assoc]

/-- Plain backtraces of every size, a queue of one freed pointer, no backtraces of frees. -/
def wrapConfig : Config := ⟨false, false, 0, 0, 1, Nat.one_pos, 0⟩

/-- A run that wraps `cur_hash_index_`: pointer 0 holds index 2 while `2 ^ w - 3` allocations of
pointer 1, each freed at once, bring the counter round to 0; three more allocations, with new
frames each, then get the indices 0, 1 and, again, 2. -/
def wrapOps (w : ℕ) : List (Op Unit) :=
  .add 0 0 (some ([0], ())) :: (List.replicate (2 ^ w - 3) (allocFree 1 0 [1] ())).flatten ++
    [.add 1 0 (some ([1], ())), .add 4 0 (some ([2], ())), .add 3 0 (some ([3], ()))]

/-- The tables after the first allocation of `wrapOps`, with the counter at `cur`. -/
def wrapTables (cur : ℕ) : Tables Unit :=
  ⟨[(0, ⟨0, 2⟩)], [], Function.update (fun _ ↦ none) 2 (some ⟨1, [0]⟩),
    Function.update (fun _ ↦ none) [0] (some 2), fun _ ↦ none, cur, true, []⟩

theorem curHashIndex_wrap_breaks_references (w : ℕ) (hw : 2 ≤ w) :
    Along wrapConfig w (fun t op ↦ op.Fresh wrapConfig t) (Tables.init true) (wrapOps w) ∧
      refsOf (run wrapConfig w (Tables.init true) (wrapOps w)) 2 = 1 ∧
      count (run wrapConfig w (Tables.init true) (wrapOps w)) 2 = 2 ∧
      (run wrapConfig w (Tables.init true) (wrapOps w)).keyToIndex [3] = some 2 ∧
      (run wrapConfig w (Tables.init true) (wrapOps w)).frames 2 = some ⟨1, [0]⟩ ∧
      LogEntry.noMatchingFrames 2 ∈
        (run wrapConfig w (run wrapConfig w (Tables.init true) (wrapOps w))
          [.remove 3, .remove 0]).log := by
  have hpow : 2 ^ 2 ≤ 2 ^ w := Nat.pow_le_pow_right (by decide) hw
  have hmod : ∀ c < 4, c % 2 ^ w = c := fun c hc ↦ Nat.mod_eq_of_lt (by omega)
  have hfirst : step wrapConfig w (Tables.init true) (.add 0 0 (some ([0], ()))) = wrapTables 3 := by
    simp [step, add, addBacktrace, Tables.init, wrapConfig, shouldBacktraceAllocSize, emplace,
      kBacktraceEmptyIndex, wrapTables, hmod]
  have hfree : ∀ j < 2 ^ w - 3, kBacktraceEmptyIndex < ((wrapTables 3).curHashIndex + j) % 2 ^ w ∧
      (wrapTables 3).frames (((wrapTables 3).curHashIndex + j) % 2 ^ w) = none ∧
      (wrapTables 3).backtracesInfo (((wrapTables 3).curHashIndex + j) % 2 ^ w) = none := by
    intro j hj
    have hj' : (3 + j) % 2 ^ w = 3 + j := Nat.mod_eq_of_lt (by omega)
    simp only [wrapTables, hj', kBacktraceEmptyIndex]
    exact ⟨by omega, Function.update_of_ne (by omega) _ _, trivial⟩
  -- the allocations of pointer 1 only move the counter, from 3 round to 0
  obtain ⟨hcycles, hfresh⟩ := run_allocFree_replicate wrapConfig w (t := wrapTables 3) rfl ()
    (show shouldBacktraceAllocSize wrapConfig 0 = true from rfl)
    (show (wrapTables 3).keyToIndex [1] = none from rfl)
    (show 1 ∉ (wrapTables 3).pointers.map Prod.fst by simp [wrapTables])
    (show 3 < 2 ^ w by omega) (2 ^ w - 3) hfree
  have hround : { wrapTables 3 with curHashIndex := (3 + (2 ^ w - 3)) % 2 ^ w } = wrapTables 0 := by
    simp [wrapTables, show 3 + (2 ^ w - 3) = 2 ^ w by omega]
  have hrun : run wrapConfig w (Tables.init true) (wrapOps w) =
      run wrapConfig w (wrapTables 0)
        [.add 1 0 (some ([1], ())), .add 4 0 (some ([2], ())), .add 3 0 (some ([3], ()))] := by
    rw [wrapOps, List.cons_append, run_cons, hfirst, run_append]
    rw [show (wrapTables 3).curHashIndex = 3 from rfl] at hcycles
    rw [hcycles, hround]
  rw [hrun]
  refine ⟨?_, ?_⟩
  · rw [wrapOps, List.cons_append, Along, hfirst, along_append]
    refine ⟨by simp [Op.Fresh, Tables.init], hfresh, ?_⟩
    rw [show (wrapTables 3).curHashIndex = 3 from rfl] at hcycles
    rw [hcycles, hround]
    simp [Along, Op.Fresh, step, add, addBacktrace, wrapTables, wrapConfig, shouldBacktraceAllocSize,
      emplace, hmod]
  · simp [run, step, add, remove, addBacktrace, removeBacktrace, wrapTables, wrapConfig,
      shouldBacktraceAllocSize, emplace, hmod, refsOf, count, kBacktraceEmptyIndex, List.lookup_cons]

theorem curHashIndex_wrap_breaks_references_lp64 :
    2 ≤ 64 ∧
      (Along wrapConfig 64 (fun t op ↦ op.Fresh wrapConfig t) (Tables.init true) (wrapOps 64) ∧
        refsOf (run wrapConfig 64 (Tables.init true) (wrapOps 64)) 2 = 1 ∧
        count (run wrapConfig 64 (Tables.init true) (wrapOps 64)) 2 = 2 ∧
        (run wrapConfig 64 (Tables.init true) (wrapOps 64)).keyToIndex [3] = some 2 ∧
        (run wrapConfig 64 (Tables.init true) (wrapOps 64)).frames 2 = some ⟨1, [0]⟩ ∧
        LogEntry.noMatchingFrames 2 ∈
          (run wrapConfig 64 (run wrapConfig 64 (Tables.init true) (wrapOps 64))
            [.remove 3, .remove 0]).log) :=
  ⟨by decide, curHashIndex_wrap_breaks_references 64 (by decide)⟩

end Bionic.MallocDebug.Backtraces
