import Bionic.MallocDebug.DebugData

/-!
# malloc_debug: the pointer tables

`PointerData` keeps the live pointers (`pointers_`, for `TRACK_ALLOCS`) and the queue of freed
ones (`free_pointers_`, for `FREE_TRACK`). A freed block stays in the queue, filled with the free
value, until `free_track_allocations` newer frees push it out; it is then checked
(`VerifyFreedPointer`: its header tag still says freed, and its first `fill_on_free_bytes` still
hold the fill) and handed back to be really freed.

Backtraces, the zygote bit of the recorded size and the pointer mangling (an `xor` undone on every
read) change nothing the allocation paths read, and are left out.

The lemmas say what each operation can change: the tables, and the log only by appending.
-/

set_option autoImplicit false
set_option relaxedAutoImplicit false

namespace Bionic.MallocDebug

open Bionic.Lib.ByteMemory

/-- `kCompareBufferSize`: the bytes `VerifyFreedPointer` compares at a time. -/
def kCompareBufferSize : ℕ := 512 * 1024

/-- `PointerInfoType::MaxSize()`: the size bits of a recorded size. -/
def maxSize : ℕ := 2 ^ 31 - 1

namespace PointerData

/-- `PointerData::Exists`. -/
def contains (pointers : List (ℕ × ℕ)) (ptr : ℕ) : Bool := pointers.any fun e ↦ e.1 == ptr

/-- `PointerData::Add`: `pointers_[ptr] = size`. -/
def add (pointers : List (ℕ × ℕ)) (ptr size : ℕ) : List (ℕ × ℕ) :=
  (ptr, size) :: pointers.filter fun e ↦ e.1 != ptr

variable {σ : Type} (d : Dispatch σ) (g : DebugData)

/-- `PointerData::Remove`, which reports a pointer it does not know. -/
def remove (h : Heap σ) (ptr : ℕ) : Heap σ :=
  if contains h.pointers ptr then { h with pointers := h.pointers.filter fun e ↦ e.1 != ptr }
  else h.logError (.noTrackedPointer ptr)

/-- The chunks of the `bytes` bytes from `pointer` that `VerifyFreedPointer` finds differing from
the fill value `c`: chunk `i` holds the `kCompareBufferSize` bytes from
`pointer + i * kCompareBufferSize`, the last one fewer. -/
def badChunks (mem : Mem) (pointer bytes : ℕ) (c : UInt8) : List ℕ :=
  (List.range ((bytes + kCompareBufferSize - 1) / kCompareBufferSize)).filter fun i ↦
    !decide (Filled mem (pointer + i * kCompareBufferSize)
      (min kCompareBufferSize (bytes - i * kCompareBufferSize)) c)

/-- `PointerData::VerifyFreedPointer`: one report if the header tag was overwritten, else one
`LogFreeError` for every chunk that lost the fill. -/
def verifyFreedPointer (h : Heap σ) (pointer : ℕ) : Heap σ :=
  let header := h.headers (g.getHeader pointer)
  if g.headerEnabled && header.tag != debugFreeTag then
    h.logError (.corruptedHeaderTagAfterFree pointer header.tag)
  else
    let usableSize :=
      if g.headerEnabled then header.usableSize else d.mallocUsableSize h.alloc pointer
    let bytes := min usableSize g.config.fillOnFreeBytes
    let bad := badChunks h.mem pointer bytes g.config.fillFreeValue
    { h with log := h.log ++ bad.map fun _ ↦ .usedAfterFree pointer }

/-- The check at the head of `PointerData::AddFreed`: when the queue is full, its oldest entry
is popped and checked, and returned to be freed for real (`0` otherwise). -/
def popOldest (h : Heap σ) : ℕ × Heap σ :=
  match h.freePointers with
  | oldest :: rest =>
    if h.freePointers.length = g.config.freeTrackAllocations then
      (oldest, verifyFreedPointer d g { h with freePointers := rest } oldest)
    else (0, h)
  | [] => (0, h)

/-- `PointerData::AddFreed`: queue `ptr` behind what `popOldest` leaves. -/
def addFreed (h : Heap σ) (ptr : ℕ) : ℕ × Heap σ :=
  let r := popOldest d g h
  (r.1, { r.2 with freePointers := r.2.freePointers ++ [ptr] })

/-! ### What each operation changes -/

theorem contains_iff {pointers : List (ℕ × ℕ)} {ptr : ℕ} :
    contains pointers ptr = true ↔ ∃ size, (ptr, size) ∈ pointers := by
  simp only [contains, List.any_eq_true, beq_iff_eq]
  constructor
  · rintro ⟨⟨p, size⟩, hmem, rfl⟩
    exact ⟨size, hmem⟩
  · rintro ⟨size, hmem⟩
    exact ⟨(ptr, size), hmem, rfl⟩

@[simp] theorem contains_add (pointers : List (ℕ × ℕ)) (ptr size q : ℕ) :
    contains (add pointers ptr size) q = (ptr == q || contains pointers q) := by
  by_cases hq : ptr = q
  · subst hq
    simp [contains, add]
  · have hkeep : ∀ e : ℕ × ℕ, (e.1 != ptr && e.1 == q) = (e.1 == q) := by
      intro e
      by_cases he : e.1 = q <;> simp [he, Ne.symm hq]
    simp [contains, add, List.any_filter, hkeep]

theorem contains_filter {pointers : List (ℕ × ℕ)} {ptr q : ℕ} (hq : ptr ≠ q) :
    contains (pointers.filter fun e ↦ e.1 != ptr) q = contains pointers q := by
  simp only [contains, List.any_filter]
  congr 1
  funext e
  by_cases he : e.1 = q
  · simp [he, Ne.symm hq]
  · simp [he]

theorem remove_eq (h : Heap σ) (ptr : ℕ) :
    ∃ es, remove h ptr =
      { h with pointers := h.pointers.filter (fun e ↦ e.1 != ptr), log := h.log ++ es } := by
  unfold remove
  split
  · exact ⟨[], by simp⟩
  · next habsent =>
    -- nothing to drop: every entry already has another pointer
    have hkeep : h.pointers.filter (fun e ↦ e.1 != ptr) = h.pointers := by
      refine List.filter_eq_self.mpr fun e he ↦ ?_
      have hne : e.1 ≠ ptr := fun heq ↦ habsent (contains_iff.mpr ⟨e.2, by rw [← heq]; exact he⟩)
      simpa using hne
    exact ⟨[_], by rw [hkeep]; rfl⟩

theorem verifyFreedPointer_eq (h : Heap σ) (pointer : ℕ) :
    ∃ es, verifyFreedPointer d g h pointer = { h with log := h.log ++ es } := by
  unfold verifyFreedPointer
  dsimp only
  split
  · exact ⟨_, rfl⟩
  · exact ⟨_, rfl⟩

theorem addFreed_eq (h : Heap σ) (ptr : ℕ) :
    ∃ es q, (addFreed d g h ptr).2 = { h with log := h.log ++ es, freePointers := q } := by
  obtain ⟨es, q, hpop⟩ :
      ∃ es q, (popOldest d g h).2 = { h with log := h.log ++ es, freePointers := q } := by
    unfold popOldest
    split
    · split
      · obtain ⟨es, hes⟩ := verifyFreedPointer_eq d g { h with freePointers := _ } _
        exact ⟨es, _, hes⟩
      · exact ⟨[], h.freePointers, by simp⟩
    · exact ⟨[], h.freePointers, by simp⟩
  refine ⟨es, q ++ [ptr], ?_⟩
  simp only [addFreed, hpop]

end PointerData

end Bionic.MallocDebug
