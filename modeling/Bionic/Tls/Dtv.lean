import Mathlib.Data.List.GetD
import Mathlib.Order.Basic
import Mathlib.Algebra.Order.Ring.Nat
import Bionic.Lib.Interleaving

/-!
# The dynamic thread vector

Each thread reaches the TLS blocks of the loaded modules through its DTV: slot `i` points at the
block of the module with index `i`, or is null. `update_tls_dtv` of `bionic_elf_tls.cpp` brings a
DTV up to the module table's generation: it grows the DTV when there are more modules than slots
(`calculate_new_dtv_count` keeps the size in bytes a power of two), points the slots of static
modules at their place in the static TLS block, keeps the blocks of dynamic modules that the DTV
has already seen, and frees every other slot.

Addresses are numbers with `0` for `nullptr`; the allocator's blocks start zeroed (it clears a
block when it frees it, and fresh pages are zero), so the slots a grown DTV adds are null. Freeing
is recorded as the list of pointers passed to `free`.

`updateTlsDtv_spec` states what the update establishes when the DTV is behind the table's
generation (`DtvPlacement`), and that otherwise it returns at once and leaves the DTV as it was.
Over runs of `dlopen` (`register_tls_module`), `dlclose` (`unregister_tls_module`) and
`__tls_get_addr`, a DTV at the table's generation has a slot for every module (`TlsSystem.Inv`),
so in every state a run reaches the update ends with enough slots at the table's generation
(`updateTlsDtv_reachable_spec`). `dlclose` does not bump the generation: a DTV that is up to date
keeps the block of the module it unloaded until the next `dlopen`
(`updateTlsDtv_keeps_unloaded_slot`).
-/

set_option autoImplicit false
set_option relaxedAutoImplicit false

namespace Bionic.Tls.Dtv

open Bionic.Lib.Interleaving

/-! ### The model -/

/-- `kTlsGenerationNone`: the first generation of an unused module entry. -/
def kTlsGenerationNone : ℕ := 0

/-- `kTlsGenerationFirst`: the generation of the module table before any module is loaded. -/
def kTlsGenerationFirst : ℕ := 1

/-- `TlsModule`, with the fields the DTV update reads: the module's offset in static TLS
(`SIZE_MAX`, here `none`, for a dynamic module) and the generation that loaded it. -/
structure TlsModule where
  staticOffset : Option ℕ := none
  firstGeneration : ℕ := kTlsGenerationNone
  deriving DecidableEq, Repr

/-- `TlsModules`: the generation counter and the module table (`module_count` is its length). -/
structure TlsModules where
  generation : ℕ := kTlsGenerationFirst
  moduleTable : List TlsModule := []
  deriving DecidableEq, Repr

/-- `module_count`. -/
def TlsModules.moduleCount (modules : TlsModules) : ℕ := modules.moduleTable.length

/-- `TlsDtv`: the generation the DTV was last brought up to, its slots (`count` is their number)
and the older DTV it replaced, kept until the thread exits. -/
structure TlsDtv where
  generation : ℕ
  modules : List ℕ
  next : Option TlsDtv
  deriving Repr

/-- `count`. -/
def TlsDtv.count (dtv : TlsDtv) : ℕ := dtv.modules.length

/-- `dtv_size_in_bytes`: the header (`count`, `next`, `generation`) and the slots. -/
def dtvSizeInBytes (ptrSize moduleCount : ℕ) : ℕ := 3 * ptrSize + moduleCount * ptrSize

/-- `powerof2(x)` of `sys/param.h` on a size: `x` and `x - 1` share no bit (`0` passes). -/
def powerof2 (x : ℕ) : Bool := x &&& (x - 1) == 0

/-- `BIONIC_ROUND_UP_POWER_OF_2(value)`: `1 << (64 - __builtin_clzl(value))`, the power of two
just above the highest bit of `value`. -/
def bionicRoundUpPowerOf2 (value : ℕ) : ℕ := 2 ^ (Nat.log2 value + 1)

/-- `calculate_new_dtv_count`: the number of slots whose DTV fills a power-of-two size in bytes
with room for every loaded module (and at least one). -/
def calculateNewDtvCount (ptrSize loadedCnt : ℕ) : ℕ :=
  let bytes := dtvSizeInBytes ptrSize (max 1 loadedCnt)
  let bytes := if powerof2 bytes then bytes else bionicRoundUpPowerOf2 bytes
  (bytes - 3 * ptrSize) / ptrSize

/-- What the loop of `update_tls_dtv` does with slot `i`. -/
inductive SlotAction where
  /-- A static module: point the slot at its place in static TLS. -/
  | initStatic (addr : ℕ)
  /-- A dynamic module loaded in a generation the DTV has seen: keep its block. -/
  | keep
  /-- Anything else: free the slot's block and clear the slot. -/
  | free
  deriving DecidableEq, Repr

/-- The decision of the loop body for slot `i` of a DTV at generation `gen`, with the static TLS
block at `staticTls`. -/
def slotAction (modules : TlsModules) (staticTls gen i : ℕ) : SlotAction :=
  match modules.moduleTable[i]? with
  | some mod =>
    match mod.staticOffset with
    | some offset => .initStatic (staticTls + offset)
    | none =>
      if mod.firstGeneration ≠ kTlsGenerationNone ∧ mod.firstGeneration ≤ gen then .keep
      else .free
  | none => .free

/-- One iteration of the loop: the slots and the pointers freed so far. -/
def updateSlot (modules : TlsModules) (staticTls gen : ℕ) (acc : List ℕ × List ℕ) (i : ℕ) :
    List ℕ × List ℕ :=
  match slotAction modules staticTls gen i with
  | .initStatic addr => (acc.1.set i addr, acc.2)
  | .keep => acc
  | .free => (acc.1.set i 0, acc.2 ++ [acc.1.getD i 0])

/-- The growth step of `update_tls_dtv`: a DTV with fewer slots than modules is replaced by one
with `calculate_new_dtv_count` slots, which copies the header and the old slots and keeps the old
DTV as `next`; its new slots come zeroed from the allocator. -/
def growDtv (ptrSize : ℕ) (modules : TlsModules) (dtv : TlsDtv) : TlsDtv :=
  if modules.moduleCount > dtv.count then
    let newCnt := calculateNewDtvCount ptrSize modules.moduleCount
    { generation := dtv.generation,
      modules := dtv.modules ++ List.replicate (newCnt - dtv.count) 0,
      next := some dtv }
  else dtv

/-- The loop of `update_tls_dtv` over every slot of `dtv`: the slots afterwards and the pointers
passed to `free`, in order. -/
def updateLoop (modules : TlsModules) (staticTls : ℕ) (dtv : TlsDtv) : List ℕ × List ℕ :=
  (List.range dtv.count).foldl (updateSlot modules staticTls dtv.generation) (dtv.modules, [])

/-- `update_tls_dtv`, for the static TLS block at `staticTls`: the DTV afterwards and the pointers
passed to `free`. A DTV already at the table's generation is returned at once. -/
def updateTlsDtv (ptrSize staticTls : ℕ) (modules : TlsModules) (dtv : TlsDtv) :
    TlsDtv × List ℕ :=
  if dtv.generation = modules.generation then (dtv, [])
  else
    let dtv := growDtv ptrSize modules dtv
    let (slots, freed) := updateLoop modules staticTls dtv
    ({ dtv with modules := slots, generation := modules.generation }, freed)

/-! ### The size of a grown DTV -/

section NewCount

variable {ptrSize : ℕ} (hp : ptrSize.isPowerOfTwo)
include hp

/-- The rounded size in bytes behind `calculate_new_dtv_count`: a power of two at least the size
of a DTV with room for every module. -/
theorem calculateNewDtvCount_spec (loadedCnt : ℕ) :
    ∃ bytes, bytes.isPowerOfTwo ∧ dtvSizeInBytes ptrSize (max 1 loadedCnt) ≤ bytes ∧
      calculateNewDtvCount ptrSize loadedCnt = (bytes - 3 * ptrSize) / ptrSize := by
  have hpos : dtvSizeInBytes ptrSize (max 1 loadedCnt) ≠ 0 := by
    have := Nat.pos_of_isPowerOfTwo hp
    simp only [dtvSizeInBytes]
    omega
  rw [calculateNewDtvCount]
  generalize dtvSizeInBytes ptrSize (max 1 loadedCnt) = size at hpos ⊢
  by_cases hpow : powerof2 size
  · -- `size` is not zero, so the bit test says it is a power of two
    have hand : size &&& (size - 1) = 0 := by simpa [powerof2] using hpow
    exact ⟨size, (Nat.and_sub_one_eq_zero_iff_isPowerOfTwo hpos).mp hand, Nat.le_refl size, by
      simp only [hpow, if_true]⟩
  · exact ⟨bionicRoundUpPowerOf2 size, ⟨_, rfl⟩, Nat.le_of_lt Nat.lt_log2_self, by
      simp only [hpow, Bool.false_eq_true, if_false]⟩

theorem le_calculateNewDtvCount (loadedCnt : ℕ) :
    max 1 loadedCnt ≤ calculateNewDtvCount ptrSize loadedCnt := by
  obtain ⟨bytes, -, hle, heq⟩ := calculateNewDtvCount_spec hp loadedCnt
  have hpos := Nat.pos_of_isPowerOfTwo hp
  rw [heq, Nat.le_div_iff_mul_le hpos]
  simp only [dtvSizeInBytes] at hle
  omega

theorem isPowerOfTwo_dtvSizeInBytes (loadedCnt : ℕ) :
    (dtvSizeInBytes ptrSize (calculateNewDtvCount ptrSize loadedCnt)).isPowerOfTwo := by
  obtain ⟨bytes, hbytes, hle, heq⟩ := calculateNewDtvCount_spec hp loadedCnt
  have hpos := Nat.pos_of_isPowerOfTwo hp
  simp only [dtvSizeInBytes] at hle
  -- a word divides the rounded size, as both are powers of two and the word is the smaller
  have hdvd : ptrSize ∣ bytes := by
    obtain ⟨i, hi⟩ := hp
    obtain ⟨j, hj⟩ := hbytes
    rw [hi, hj]
    apply Nat.pow_dvd_pow
    rw [← Nat.pow_le_pow_iff_right (by decide : 1 < 2), ← hi, ← hj]
    omega
  have hsub : ptrSize ∣ bytes - 3 * ptrSize := Nat.dvd_sub hdvd (Nat.dvd_mul_left _ _)
  rw [dtvSizeInBytes, heq, Nat.div_mul_cancel hsub, Nat.add_sub_cancel' (by omega)]
  exact hbytes

end NewCount

/-! ### The slot loop

`SlotAction.apply` is what a slot holds after the loop body, and the loop over `List.range n`
leaves every slot below `n` so changed and the others as they were; its log holds, in order, the
old blocks of the slots it frees. -/

/-- The slot after the loop body, from the slot before. -/
def SlotAction.apply : SlotAction → ℕ → ℕ
  | .initStatic addr, _ => addr
  | .keep, old => old
  | .free, _ => 0

section Loop

variable (modules : TlsModules) (staticTls gen : ℕ)

theorem length_updateSlot (acc : List ℕ × List ℕ) (i : ℕ) :
    (updateSlot modules staticTls gen acc i).1.length = acc.1.length := by
  unfold updateSlot
  split <;> simp

theorem getD_updateSlot (acc : List ℕ × List ℕ) {i : ℕ} (hi : i < acc.1.length) (j : ℕ) :
    (updateSlot modules staticTls gen acc i).1.getD j 0 =
      if j = i then (slotAction modules staticTls gen i).apply (acc.1.getD i 0)
      else acc.1.getD j 0 := by
  unfold updateSlot
  by_cases hji : j = i
  · subst hji
    split <;> simp_all [SlotAction.apply, List.getD_eq_getElem?_getD]
  · split <;> simp [hji, List.getD_eq_getElem?_getD, Ne.symm hji]

theorem snd_updateSlot (acc : List ℕ × List ℕ) (i : ℕ) :
    (updateSlot modules staticTls gen acc i).2 =
      acc.2 ++ if slotAction modules staticTls gen i = .free then [acc.1.getD i 0] else [] := by
  unfold updateSlot
  split <;> simp_all

theorem length_foldl_updateSlot (l : List ℕ) (acc : List ℕ × List ℕ) :
    (l.foldl (updateSlot modules staticTls gen) acc).1.length = acc.1.length := by
  induction l generalizing acc with
  | nil => rfl
  | cons i l ih => rw [List.foldl_cons, ih, length_updateSlot]

/-- After the loop over the first `n` slots, each of them holds what its action leaves and the
others are unchanged. -/
theorem getD_foldl_updateSlot (acc : List ℕ × List ℕ) {n : ℕ} (hn : n ≤ acc.1.length) (j : ℕ) :
    ((List.range n).foldl (updateSlot modules staticTls gen) acc).1.getD j 0 =
      if j < n then (slotAction modules staticTls gen j).apply (acc.1.getD j 0)
      else acc.1.getD j 0 := by
  induction n generalizing j with
  | zero => simp
  | succ n ih =>
    have hlen := length_foldl_updateSlot modules staticTls gen (List.range n) acc
    rw [List.range_succ, List.foldl_append, List.foldl_cons, List.foldl_nil,
      getD_updateSlot _ _ _ _ (by omega), ih (by omega) n, ih (by omega) j]
    -- slot `n` is the one this iteration changes; the loop so far left it alone
    by_cases hjn : j = n
    · simp [hjn]
    · by_cases hj : j < n
      · simp [hjn, hj, show j < n + 1 by omega]
      · simp [hjn, hj, show ¬j < n + 1 by omega]

/-- The loop over the first `n` slots frees, in order, the old blocks of the slots whose action is
to free them. -/
theorem snd_foldl_updateSlot (acc : List ℕ × List ℕ) {n : ℕ} (hn : n ≤ acc.1.length) :
    ((List.range n).foldl (updateSlot modules staticTls gen) acc).2 =
      acc.2 ++ (List.range n).filterMap fun i ↦
        if slotAction modules staticTls gen i = .free then some (acc.1.getD i 0) else none := by
  induction n with
  | zero => simp
  | succ n ih =>
    have hlen := length_foldl_updateSlot modules staticTls gen (List.range n) acc
    rw [List.range_succ, List.foldl_append, List.foldl_cons, List.foldl_nil, snd_updateSlot,
      ih (by omega), getD_foldl_updateSlot _ _ _ _ (by omega), List.filterMap_append,
      List.append_assoc]
    by_cases hfree : slotAction modules staticTls gen n = .free <;> simp [hfree]

end Loop

/-! ### Growing the DTV -/

section Grow

variable (ptrSize : ℕ) (modules : TlsModules) (dtv : TlsDtv)

@[simp] theorem generation_growDtv : (growDtv ptrSize modules dtv).generation = dtv.generation := by
  unfold growDtv
  split <;> rfl

theorem getD_append_replicate_zero (slots : List ℕ) (k i : ℕ) :
    (slots ++ List.replicate k 0).getD i 0 = slots.getD i 0 := by
  simp only [List.getD_eq_getElem?_getD, List.getElem?_append, List.getElem?_replicate]
  split
  · rfl
  · rw [List.getElem?_eq_none (by omega)]
    split <;> rfl

@[simp] theorem getD_growDtv (i : ℕ) :
    (growDtv ptrSize modules dtv).modules.getD i 0 = dtv.modules.getD i 0 := by
  unfold growDtv
  split
  · exact getD_append_replicate_zero _ _ _
  · rfl

theorem count_le_count_growDtv : dtv.count ≤ (growDtv ptrSize modules dtv).count := by
  unfold growDtv
  split
  · simp [TlsDtv.count]
  · exact Nat.le_refl _

variable {ptrSize} (hp : ptrSize.isPowerOfTwo)
include hp

theorem moduleCount_le_count_growDtv : modules.moduleCount ≤ (growDtv ptrSize modules dtv).count := by
  unfold growDtv
  split
  · have hle := le_calculateNewDtvCount hp modules.moduleCount
    simp only [TlsDtv.count, List.length_append, List.length_replicate] at hle ⊢
    omega
  · omega

theorem isPowerOfTwo_growDtv (hlt : dtv.count < modules.moduleCount) :
    (dtvSizeInBytes ptrSize (growDtv ptrSize modules dtv).count).isPowerOfTwo := by
  have hle := le_calculateNewDtvCount hp modules.moduleCount
  have hcount : (growDtv ptrSize modules dtv).count =
      calculateNewDtvCount ptrSize modules.moduleCount := by
    rw [growDtv, if_pos (show modules.moduleCount > dtv.count from hlt)]
    simp only [TlsDtv.count, List.length_append, List.length_replicate] at hlt ⊢
    omega
  rw [hcount]
  exact isPowerOfTwo_dtvSizeInBytes hp _

end Grow

/-! ### What the update establishes -/

/-- Slot `i` belongs to a static module at `offset` in static TLS. -/
def IsStatic (modules : TlsModules) (i offset : ℕ) : Prop :=
  ∃ mod, modules.moduleTable[i]? = some mod ∧ mod.staticOffset = some offset

/-- Slot `i` belongs to a dynamic module loaded in a generation up to `gen`. -/
def KeptAt (modules : TlsModules) (gen i : ℕ) : Prop :=
  ∃ mod, modules.moduleTable[i]? = some mod ∧ mod.staticOffset = none ∧
    mod.firstGeneration ≠ kTlsGenerationNone ∧ mod.firstGeneration ≤ gen

theorem slotAction_cases (modules : TlsModules) (staticTls gen i : ℕ) :
    (∃ offset, IsStatic modules i offset ∧
        slotAction modules staticTls gen i = .initStatic (staticTls + offset)) ∨
      (KeptAt modules gen i ∧ slotAction modules staticTls gen i = .keep) ∨
      ((∀ offset, ¬IsStatic modules i offset) ∧ ¬KeptAt modules gen i ∧
        slotAction modules staticTls gen i = .free) := by
  unfold slotAction IsStatic KeptAt
  rcases hmod : modules.moduleTable[i]? with _ | mod
  · simp
  · rcases hoff : mod.staticOffset with _ | offset
    · by_cases hkeep : mod.firstGeneration ≠ kTlsGenerationNone ∧ mod.firstGeneration ≤ gen
      · exact .inr (.inl ⟨⟨mod, rfl, hoff, hkeep⟩, by simp [hoff, hkeep]⟩)
      · refine .inr (.inr ⟨by simp [hoff], ?_, by simp [hoff, hkeep]⟩)
        rintro ⟨m, hm, -, hne, hle⟩
        cases hm
        exact hkeep ⟨hne, hle⟩
    · exact .inl ⟨offset, ⟨mod, rfl, hoff⟩, by simp [hoff]⟩

/-- What `update_tls_dtv` leaves when it brings `dtv` up to the table's generation as `dtv'`,
having freed the blocks `freed`. -/
structure DtvPlacement (ptrSize staticTls : ℕ) (modules : TlsModules) (dtv dtv' : TlsDtv)
    (freed : List ℕ) : Prop where
  moduleCount_le : modules.moduleCount ≤ dtv'.count
  isPowerOfTwo_size :
    dtv.count < modules.moduleCount → (dtvSizeInBytes ptrSize dtv'.count).isPowerOfTwo
  generation_eq : dtv'.generation = modules.generation
  static_slot : ∀ i offset, IsStatic modules i offset → dtv'.modules.getD i 0 = staticTls + offset
  live_slot : ∀ i, dtv'.modules.getD i 0 ≠ 0 → (∃ offset, IsStatic modules i offset) ∨
    (KeptAt modules dtv.generation i ∧ dtv'.modules.getD i 0 = dtv.modules.getD i 0)
  freed_slot : ∀ i < dtv'.count, (∀ offset, ¬IsStatic modules i offset) →
    ¬KeptAt modules dtv.generation i → dtv'.modules.getD i 0 = 0 ∧ dtv.modules.getD i 0 ∈ freed

theorem IsStatic.offset_eq {modules : TlsModules} {i offset offset' : ℕ}
    (h : IsStatic modules i offset) (h' : IsStatic modules i offset') : offset = offset' := by
  obtain ⟨mod, hmod, hoff⟩ := h
  obtain ⟨mod', hmod', hoff'⟩ := h'
  rw [hmod, Option.some_inj] at hmod'
  subst hmod'
  exact Option.some_inj.mp (hoff.symm.trans hoff')

theorem IsStatic.lt_moduleCount {modules : TlsModules} {i offset : ℕ}
    (h : IsStatic modules i offset) : i < modules.moduleCount := by
  obtain ⟨mod, hmod, -⟩ := h
  exact (List.getElem?_eq_some_iff.mp hmod).1

/-- The update of a DTV whose generation is behind the table's: the loop runs over the grown DTV,
whose slots and generation are the old ones. -/
theorem updateTlsDtv_of_ne {ptrSize : ℕ} (staticTls : ℕ) {modules : TlsModules} {dtv : TlsDtv}
    (hgen : dtv.generation ≠ modules.generation) :
    updateTlsDtv ptrSize staticTls modules dtv =
      ({ growDtv ptrSize modules dtv with
          modules := (updateLoop modules staticTls (growDtv ptrSize modules dtv)).1,
          generation := modules.generation },
        (updateLoop modules staticTls (growDtv ptrSize modules dtv)).2) := by
  simp only [updateTlsDtv, if_neg hgen]

theorem getD_updateLoop_growDtv (ptrSize staticTls : ℕ) (modules : TlsModules) (dtv : TlsDtv)
    (j : ℕ) :
    (updateLoop modules staticTls (growDtv ptrSize modules dtv)).1.getD j 0 =
      if j < (growDtv ptrSize modules dtv).count then
        (slotAction modules staticTls dtv.generation j).apply (dtv.modules.getD j 0)
      else dtv.modules.getD j 0 := by
  rw [updateLoop, getD_foldl_updateSlot _ _ _ _
    (show (growDtv ptrSize modules dtv).count ≤ (growDtv ptrSize modules dtv).modules.length from
      Nat.le_refl _), generation_growDtv, getD_growDtv]

theorem snd_updateLoop_growDtv (ptrSize staticTls : ℕ) (modules : TlsModules) (dtv : TlsDtv) :
    (updateLoop modules staticTls (growDtv ptrSize modules dtv)).2 =
      (List.range (growDtv ptrSize modules dtv).count).filterMap fun i ↦
        if slotAction modules staticTls dtv.generation i = .free then
          some (dtv.modules.getD i 0) else none := by
  rw [updateLoop, snd_foldl_updateSlot _ _ _ _
    (show (growDtv ptrSize modules dtv).count ≤ (growDtv ptrSize modules dtv).modules.length from
      Nat.le_refl _), generation_growDtv, List.nil_append]
  simp only [getD_growDtv]

theorem dtvPlacement_updateTlsDtv {ptrSize : ℕ} (hp : ptrSize.isPowerOfTwo) (staticTls : ℕ)
    {modules : TlsModules} {dtv : TlsDtv} (hgen : dtv.generation ≠ modules.generation) :
    DtvPlacement ptrSize staticTls modules dtv (updateTlsDtv ptrSize staticTls modules dtv).1
      (updateTlsDtv ptrSize staticTls modules dtv).2 := by
  rw [updateTlsDtv_of_ne staticTls hgen]
  have hcount : (updateLoop modules staticTls (growDtv ptrSize modules dtv)).1.length =
      (growDtv ptrSize modules dtv).count :=
    length_foldl_updateSlot _ _ _ _ _
  have hslot := getD_updateLoop_growDtv ptrSize staticTls modules dtv
  have hmc := moduleCount_le_count_growDtv modules dtv hp
  have hold := count_le_count_growDtv ptrSize modules dtv
  refine ⟨?_, ?_, rfl, ?_, ?_, ?_⟩
  · show modules.moduleCount ≤ (updateLoop _ _ _).1.length
    rw [hcount]
    exact hmc
  · intro hlt
    show (dtvSizeInBytes ptrSize (updateLoop _ _ _).1.length).isPowerOfTwo
    rw [hcount]
    exact isPowerOfTwo_growDtv modules dtv hp hlt
  · -- a static module's index is below the module count, so the loop reached its slot
    intro i offset hst
    show (updateLoop _ _ _).1.getD i 0 = _
    rw [hslot, if_pos (by have := hst.lt_moduleCount; omega)]
    rcases slotAction_cases modules staticTls dtv.generation i with
      ⟨offset', hst', haction⟩ | ⟨⟨mod', hmod', hoff', -⟩, -⟩ | ⟨hns, -, -⟩
    · rw [haction, hst.offset_eq hst']
      rfl
    · -- a kept slot belongs to a dynamic module, not to this static one
      obtain ⟨mod, hmod, hoff⟩ := hst
      rw [hmod, Option.some_inj] at hmod'
      subst hmod'
      rw [hoff] at hoff'
      cases hoff'
    · exact absurd hst (hns offset)
  · -- a non-null slot was set for a static module or kept for a dynamic one
    intro i hne
    change (updateLoop _ _ _).1.getD i 0 ≠ 0 at hne
    show _ ∨ _ ∧ (updateLoop _ _ _).1.getD i 0 = _
    by_cases hi : i < (growDtv ptrSize modules dtv).count
    · rw [hslot, if_pos hi] at hne ⊢
      rcases slotAction_cases modules staticTls dtv.generation i with
        ⟨offset, hst, -⟩ | ⟨hkeep, haction⟩ | ⟨-, -, haction⟩
      · exact .inl ⟨offset, hst⟩
      · rw [haction]
        exact .inr ⟨hkeep, rfl⟩
      · rw [haction] at hne
        exact absurd rfl hne
    · -- past the grown DTV's slots the old DTV has none
      have hlen : dtv.modules.length ≤ i := by
        have := hold
        simp only [TlsDtv.count] at this hi
        omega
      rw [hslot, if_neg hi, List.getD_eq_getElem?_getD, List.getElem?_eq_none hlen] at hne
      exact absurd rfl hne
  · -- every other slot was freed by the loop and cleared
    intro i hi hns hnk
    have hi' : i < (growDtv ptrSize modules dtv).count := by rw [← hcount]; exact hi
    rcases slotAction_cases modules staticTls dtv.generation i with
      ⟨offset, hst, -⟩ | ⟨hkeep, -⟩ | ⟨-, -, haction⟩
    · exact absurd hst (hns offset)
    · exact absurd hkeep hnk
    · refine ⟨?_, ?_⟩
      · show (updateLoop _ _ _).1.getD i 0 = 0
        rw [hslot, if_pos hi', haction]
        rfl
      · rw [snd_updateLoop_growDtv, List.mem_filterMap]
        exact ⟨i, List.mem_range.mpr hi', by rw [if_pos haction]⟩


/-- `update_tls_dtv` returns a DTV already at the table's generation as it is, whatever its slots,
and brings any other DTV to the placement. -/
theorem updateTlsDtv_spec {ptrSize : ℕ} (hp : ptrSize.isPowerOfTwo) (staticTls : ℕ)
    (modules : TlsModules) (dtv : TlsDtv) :
    (dtv.generation = modules.generation →
        updateTlsDtv ptrSize staticTls modules dtv = (dtv, [])) ∧
      (dtv.generation ≠ modules.generation →
        DtvPlacement ptrSize staticTls modules dtv (updateTlsDtv ptrSize staticTls modules dtv).1
          (updateTlsDtv ptrSize staticTls modules dtv).2) :=
  ⟨fun hgen ↦ by simp only [updateTlsDtv, if_pos hgen], dtvPlacement_updateTlsDtv hp staticTls⟩

/-! ### Runs of `dlopen`, `dlclose` and `__tls_get_addr` -/

/-- `get_unused_module_index`: the first entry with no module, or a new entry at the end. An entry
has no module (`soinfo_ptr` null) exactly when it is `{}`: every module registered has a first
generation after `kTlsGenerationNone`. -/
def getUnusedModuleIndex (modules : TlsModules) : ℕ :=
  (modules.moduleTable.findIdx? (·.firstGeneration == kTlsGenerationNone)).getD modules.moduleCount

/-- `register_tls_module`: the module takes an unused index, with the bumped generation as its
first. -/
def registerTlsModule (modules : TlsModules) (staticOffset : Option ℕ) : TlsModules :=
  let idx := getUnusedModuleIndex modules
  let table :=
    if idx < modules.moduleCount then modules.moduleTable else modules.moduleTable ++ [({ } : TlsModule)]
  { generation := modules.generation + 1,
    moduleTable := table.set idx { staticOffset, firstGeneration := modules.generation + 1 } }

/-- `unregister_tls_module` of the module at index `i`: its entry becomes `{}`, and the generation
is not bumped. `none` where its `CHECK`s fail: the module is dynamic and registered. -/
def unregisterTlsModule (modules : TlsModules) (i : ℕ) : Option TlsModules :=
  match modules.moduleTable[i]? with
  | some mod =>
    if mod.staticOffset = none ∧ mod.firstGeneration ≠ kTlsGenerationNone then
      some { modules with moduleTable := modules.moduleTable.set i ({ } : TlsModule) }
    else none
  | none => none

/-- `__tls_get_addr` for the module at index `i`, which gets the block `block` from the allocator
when its slot is null. The fast path returns a non-null slot of a DTV at the table's generation,
which `update_tls_dtv` would leave as it is. -/
def tlsGetAddr (ptrSize staticTls : ℕ) (modules : TlsModules) (dtv : TlsDtv) (i block : ℕ) :
    TlsDtv :=
  let dtv := (updateTlsDtv ptrSize staticTls modules dtv).1
  if dtv.modules.getD i 0 = 0 then { dtv with modules := dtv.modules.set i block } else dtv

/-- The module table and one thread's DTV. -/
structure TlsSystem where
  modules : TlsModules
  dtv : TlsDtv

/-- No module loaded yet, and the thread on `zero_dtv`. -/
def TlsSystem.init : TlsSystem := ⟨{}, ⟨kTlsGenerationNone, [], none⟩⟩

/-- A `dlopen` that registers a module, a `dlclose` that unregisters the one at an index, or a
`__tls_get_addr` of the thread for the loaded module at an index. -/
inductive TlsEvent where
  | register (staticOffset : Option ℕ)
  | unregister (i : ℕ)
  | getAddr (i block : ℕ)
  deriving DecidableEq, Repr

/-- One event; a `__tls_get_addr` is for a loaded module, and the allocator never returns null. -/
def tlsStep (ptrSize staticTls : ℕ) : TlsEvent → TlsSystem → Option TlsSystem
  | .register staticOffset, s => some { s with modules := registerTlsModule s.modules staticOffset }
  | .unregister i, s => (unregisterTlsModule s.modules i).map fun modules ↦ { s with modules }
  | .getAddr i block, s =>
    if i < s.modules.moduleCount ∧ block ≠ 0 then
      some { s with dtv := tlsGetAddr ptrSize staticTls s.modules s.dtv i block }
    else none

/-- The states some run of events reaches. -/
def TlsSystem.Reachable (ptrSize staticTls : ℕ) (s : TlsSystem) : Prop :=
  ∃ events, run (tlsStep ptrSize staticTls) TlsSystem.init events = s

/-- The DTV is never ahead of the table, and a DTV at the table's generation has a slot for every
module. -/
def TlsSystem.Inv (s : TlsSystem) : Prop :=
  s.dtv.generation ≤ s.modules.generation ∧
    (s.dtv.generation = s.modules.generation → s.modules.moduleCount ≤ s.dtv.count)

section Run

variable {ptrSize : ℕ} (hp : ptrSize.isPowerOfTwo) (staticTls : ℕ)

include hp

/-- From a state of the invariant, `update_tls_dtv` reaches the table's generation with a slot for
every module. -/
theorem TlsSystem.Inv.updateTlsDtv {s : TlsSystem} (hinv : s.Inv) :
    (updateTlsDtv ptrSize staticTls s.modules s.dtv).1.generation = s.modules.generation ∧
      s.modules.moduleCount ≤ (updateTlsDtv ptrSize staticTls s.modules s.dtv).1.count := by
  by_cases hgen : s.dtv.generation = s.modules.generation
  · rw [(updateTlsDtv_spec hp staticTls s.modules s.dtv).1 hgen]
    exact ⟨hgen, hinv.2 hgen⟩
  · have hplace := dtvPlacement_updateTlsDtv hp staticTls hgen
    exact ⟨hplace.generation_eq, hplace.moduleCount_le⟩

theorem TlsSystem.inv_stable : Stable (tlsStep ptrSize staticTls) TlsSystem.Inv := by
  intro event s s' hinv hstep
  cases event with
  | register staticOffset =>
    -- the table moves on to a generation no DTV has reached
    cases hstep
    have hle := hinv.1
    refine ⟨show s.dtv.generation ≤ s.modules.generation + 1 by omega, fun hgen ↦ ?_⟩
    change s.dtv.generation = s.modules.generation + 1 at hgen
    omega
  | unregister i =>
    obtain ⟨modules, hmodules, rfl⟩ := Option.map_eq_some_iff.mp hstep
    unfold unregisterTlsModule at hmodules
    split at hmodules
    · split_ifs at hmodules
      cases hmodules
      refine ⟨hinv.1, fun hgen ↦ ?_⟩
      simp only [TlsModules.moduleCount, List.length_set]
      exact hinv.2 hgen
    · cases hmodules
  | getAddr i block =>
    rw [tlsStep] at hstep
    split_ifs at hstep
    cases hstep
    obtain ⟨hgen, hcount⟩ := hinv.updateTlsDtv hp staticTls
    -- storing the new block keeps the generation and the number of slots
    have hslots : (tlsGetAddr ptrSize staticTls s.modules s.dtv i block).generation =
          (updateTlsDtv ptrSize staticTls s.modules s.dtv).1.generation ∧
        (tlsGetAddr ptrSize staticTls s.modules s.dtv i block).count =
          (updateTlsDtv ptrSize staticTls s.modules s.dtv).1.count := by
      dsimp only [tlsGetAddr]
      split_ifs <;> simp [TlsDtv.count]
    refine ⟨by rw [hslots.1, hgen], fun _ ↦ ?_⟩
    rw [hslots.2]
    exact hcount

theorem TlsSystem.Reachable.inv {s : TlsSystem} (hs : s.Reachable ptrSize staticTls) : s.Inv := by
  obtain ⟨events, rfl⟩ := hs
  exact (TlsSystem.inv_stable hp staticTls).run ⟨Nat.zero_le _, fun h ↦ absurd h (by decide)⟩ events

/-- `update_tls_dtv` in every state that `dlopen`, `dlclose` and `__tls_get_addr` reach: the DTV
ends at the table's generation with a slot for every module; one that was at it already is
returned as it is, and one that was behind gets the placement. -/
theorem updateTlsDtv_reachable_spec {s : TlsSystem} (hs : s.Reachable ptrSize staticTls) :
    s.modules.moduleCount ≤ (updateTlsDtv ptrSize staticTls s.modules s.dtv).1.count ∧
      (updateTlsDtv ptrSize staticTls s.modules s.dtv).1.generation = s.modules.generation ∧
      (s.dtv.generation = s.modules.generation →
        updateTlsDtv ptrSize staticTls s.modules s.dtv = (s.dtv, [])) ∧
      (s.dtv.generation ≠ s.modules.generation →
        DtvPlacement ptrSize staticTls s.modules s.dtv
          (updateTlsDtv ptrSize staticTls s.modules s.dtv).1
          (updateTlsDtv ptrSize staticTls s.modules s.dtv).2) := by
  obtain ⟨hgen, hcount⟩ := (hs.inv hp staticTls).updateTlsDtv hp staticTls
  exact ⟨hcount, hgen, (updateTlsDtv_spec hp staticTls s.modules s.dtv).1,
    (updateTlsDtv_spec hp staticTls s.modules s.dtv).2⟩

end Run

/-- After the `dlopen` of a dynamic module, with a 64-bit pointer size. -/
theorem updateTlsDtv_reachable_spec_dlopen :
    (8 : ℕ).isPowerOfTwo ∧
      TlsSystem.Reachable 8 4096 (run (tlsStep 8 4096) TlsSystem.init [.register none]) ∧
      (run (tlsStep 8 4096) TlsSystem.init [.register none]).modules.moduleCount ≤
        (updateTlsDtv 8 4096 (run (tlsStep 8 4096) TlsSystem.init [.register none]).modules
          (run (tlsStep 8 4096) TlsSystem.init [.register none]).dtv).1.count ∧
      (updateTlsDtv 8 4096 (run (tlsStep 8 4096) TlsSystem.init [.register none]).modules
          (run (tlsStep 8 4096) TlsSystem.init [.register none]).dtv).1.generation =
        (run (tlsStep 8 4096) TlsSystem.init [.register none]).modules.generation ∧
      ((run (tlsStep 8 4096) TlsSystem.init [.register none]).dtv.generation =
          (run (tlsStep 8 4096) TlsSystem.init [.register none]).modules.generation →
        updateTlsDtv 8 4096 (run (tlsStep 8 4096) TlsSystem.init [.register none]).modules
            (run (tlsStep 8 4096) TlsSystem.init [.register none]).dtv =
          ((run (tlsStep 8 4096) TlsSystem.init [.register none]).dtv, [])) ∧
      ((run (tlsStep 8 4096) TlsSystem.init [.register none]).dtv.generation ≠
          (run (tlsStep 8 4096) TlsSystem.init [.register none]).modules.generation →
        DtvPlacement 8 4096 (run (tlsStep 8 4096) TlsSystem.init [.register none]).modules
          (run (tlsStep 8 4096) TlsSystem.init [.register none]).dtv
          (updateTlsDtv 8 4096 (run (tlsStep 8 4096) TlsSystem.init [.register none]).modules
            (run (tlsStep 8 4096) TlsSystem.init [.register none]).dtv).1
          (updateTlsDtv 8 4096 (run (tlsStep 8 4096) TlsSystem.init [.register none]).modules
            (run (tlsStep 8 4096) TlsSystem.init [.register none]).dtv).2) :=
  have h8 : (8 : ℕ).isPowerOfTwo := ⟨3, rfl⟩
  ⟨h8, ⟨_, rfl⟩, updateTlsDtv_reachable_spec h8 4096 ⟨_, rfl⟩⟩

/-- `dlopen` of a dynamic module, a `__tls_get_addr` of it that gets the block at `64`, and its
`dlclose`, which does not bump the generation: `update_tls_dtv` returns at once, and slot `0` keeps
the block of a module that is gone, its entry `{}`. -/
theorem updateTlsDtv_keeps_unloaded_slot :
    (run (tlsStep 8 4096) TlsSystem.init
        [.register none, .getAddr 0 64, .unregister 0]).modules.moduleTable = [{}] ∧
      (updateTlsDtv 8 4096
          (run (tlsStep 8 4096) TlsSystem.init
            [.register none, .getAddr 0 64, .unregister 0]).modules
          (run (tlsStep 8 4096) TlsSystem.init
            [.register none, .getAddr 0 64, .unregister 0]).dtv).1.modules.getD 0 0 = 64 := by
  decide

end Bionic.Tls.Dtv
