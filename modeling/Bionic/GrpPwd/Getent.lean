import Bionic.GrpPwd.GrpPwd
import Bionic.Lib.Calls

/-!
# Enumerating users and groups: `getpwent` and `getgrent`

`setpwent` sets the thread's `getpwent_idx`, an `ssize_t`, to 0, and each `getpwent` call reads
and advances it through four phases: the `android_ids` table, the OEM ranges `AID_OEM_RESERVED`
and `AID_OEM_RESERVED_2`, the system-reserved ids that `oem_id_to_passwd` resolves, and last the
first user's app ids, where the index is the uid itself and `get_next_app_id` steps through
`user_ranges`. `getgrent` is the same walk over `group_ranges`; both are `getent` applied to the
member's lookups.

From index 0 the calls return the table, the OEM entries, the resolving system-reserved entries
and every app id of the first user in increasing order (`calls_getent`), when the first three
phases end below `AID_APP_START`. Past the last range `get_next_app_id` returns `-1` as an `id_t`,
that is `0xFFFFFFFF`, and the index stores it as an `ssize_t`. On ILP32 that is -1 and every later
call returns `nullptr`. On LP64 it is 4294967295: the `!= -1` test passes and
`app_id_to_passwd(0xFFFFFFFF)` returns `nullptr`. The next call's `current_id + 1` then wraps to 0,
`app_id_to_passwd(0)` returns `nullptr` too, and the index is back at the start of the table: the
enumeration repeats forever with two `nullptr`s between rounds.
-/

set_option autoImplicit false
set_option relaxedAutoImplicit false

namespace Bionic.GrpPwd

open Bionic.Lib.Calls

def aidSystemReservedStart : ℕ := 6000
def aidSystemExtReservedEnd : ℕ := 6999

/-! ## Index arithmetic -/

/-- An `ssize_t` or `size_t` value passed as an `id_t`: its low 32 bits. -/
def toId (x : ℤ) : ℕ := (x % 2 ^ 32).toNat

/-- The `id_t` that `get_next_app_id` returns, stored into the `ssize_t` index: kept on LP64, read
as a signed 32-bit number on ILP32. -/
def ssizeOfId (lp64 : Bool) (id : ℕ) : ℤ := if lp64 || id < 2 ^ 31 then id else (id : ℤ) - 2 ^ 32

theorem toId_natCast {n : ℕ} (h : n < 2 ^ 32) : toId n = n := by
  unfold toId
  omega

theorem ssizeOfId_of_lt (lp64 : Bool) {id : ℕ} (h : id < 2 ^ 31) : ssizeOfId lp64 id = id := by
  unfold ssizeOfId
  rw [if_pos (by simp; omega)]

/-! ## `get_next_app_id` -/

/-- `get_next_app_id` over its array of ranges: the first id when below the first range, the next
id, the start of the next range from a gap between two, or `-1` as an `id_t` past the last. -/
def nextAppIdIn (ranges : List IdRange) (currentId : ℕ) : ℕ :=
  let first := ranges.headD ⟨0, 0⟩
  if currentId < first.start then first.start
  else
    let incrementedId := (currentId + 1) % 2 ^ 32
    -- the loop over `i`: the first two neighbouring ranges with the id between them
    match (ranges.zip ranges.tail).find? (fun p ↦ p.1.end < incrementedId && incrementedId < p.2.start) with
    | some p => p.2.start
    | none => if (ranges.getLastD ⟨0, 0⟩).end < incrementedId then 2 ^ 32 - 1 else incrementedId

/-- The ranges `get_next_app_id` walks for users and for groups. -/
def appRanges (isGroup : Bool) : List IdRange := if isGroup then groupRanges else userRanges

/-- `get_next_app_id(current_id, is_group)`. -/
def getNextAppId (currentId : ℕ) (isGroup : Bool) : ℕ := nextAppIdIn (appRanges isGroup) currentId

/-! ## The enumeration -/

section Getent

variable (ids : List AndroidIdInfo) {α : Type} (toEntry : AndroidIdInfo → α)
  (oemIdTo appIdTo : ℕ → Option α) (isGroup lp64 : Bool)

/-- The do-while over the system-reserved ids: `f` at each index from `idx` on until one answers,
at most `n` indices. -/
def scanReserved (f : ℤ → Option α) : ℕ → ℤ → Option α × ℤ
  | 0, idx => (none, idx)
  | n + 1, idx =>
    match f idx with
    | some a => (some a, idx + 1)
    | none => scanReserved f n (idx + 1)

/-- The last phase: the index becomes `get_next_app_id` of itself, and an index other than -1 is
looked up as an app id. -/
def nextAppEntry (idx : ℤ) : Option α × ℤ :=
  let idx := ssizeOfId lp64 (getNextAppId (toId idx) isGroup)
  if idx ≠ -1 then (appIdTo (toId idx), idx) else (none, idx)

/-- `getpwent` and `getgrent` on the thread's index: the entry returned (`none` for `nullptr`)
and the index after the call. -/
def getent (idx : ℤ) : Option α × ℤ :=
  if h₀ : idx < 0 then (none, idx)
  else
    -- `end = android_id_count`
    if h : idx < ids.length then (some (toEntry (ids.get ⟨idx.toNat, by omega⟩)), idx + 1)
    else
      let start1 : ℤ := ids.length
      let end1 := start1 + (aidOemReservedEnd - aidOemReservedStart + 1 : ℕ)
      if idx < end1 then (oemIdTo (toId (idx - start1 + aidOemReservedStart)), idx + 1)
      else
        let start2 := end1
        let end2 := start2 + (aidOemReserved2End - aidOemReserved2Start + 1 : ℕ)
        if idx < end2 then (oemIdTo (toId (idx - start2 + aidOemReserved2Start)), idx + 1)
        else
          let start3 := end2
          let end3 := start3 + (aidSystemExtReservedEnd - aidSystemReservedStart + 1 : ℕ)
          let scan :=
            if idx < end3 then
              scanReserved (fun i ↦ oemIdTo (toId (i - start3 + aidSystemReservedStart)))
                (end3 - idx).toNat idx
            else (none, idx)
          match scan.1 with
          | some a => (some a, scan.2)
          | none => nextAppEntry appIdTo isGroup lp64 scan.2

end Getent

section Members

variable (ids : List AndroidIdInfo) (before29 lp64 : Bool)

/-- `getpwent()`. -/
def getpwent : ℤ → Option Passwd × ℤ :=
  getent ids androidIinfoToPasswd (oemIdToPasswd ids before29) (appIdToPasswd ids) false lp64

/-- `getgrent()`. Its `init_group_state` and the end it computes for the app ids (which nothing
reads) change nothing returned. -/
def getgrent : ℤ → Option Group × ℤ :=
  getent ids androidIinfoToGroup (oemIdToGroup ids before29) (appIdToGroup ids) true lp64

end Members

/-! ## What the enumeration lists -/

/-- The ids of ranges, in order. -/
def rangeIds (ranges : List IdRange) : List ℕ :=
  ranges.flatMap fun r ↦ List.range' r.start (r.end + 1 - r.start)

/-- `AID_OEM_RESERVED` and `AID_OEM_RESERVED_2`. -/
def oemRanges : List IdRange :=
  [⟨aidOemReservedStart, aidOemReservedEnd⟩, ⟨aidOemReserved2Start, aidOemReserved2End⟩]

/-- The system-reserved ids, from `AID_SYSTEM_RESERVED_START` to `AID_SYSTEM_EXT_RESERVED_END`. -/
def systemReservedRange : IdRange := ⟨aidSystemReservedStart, aidSystemExtReservedEnd⟩

/-- What the enumeration is meant to list from `setpwent` (`setgrent`) on, in order: the table,
the OEM ids, the system-reserved ids that resolve, and the app ids of the first user. -/
def entries (ids : List AndroidIdInfo) {α : Type} (toEntry : AndroidIdInfo → α)
    (oemIdTo appIdTo : ℕ → Option α) (isGroup : Bool) : List α :=
  ids.map toEntry ++ (rangeIds oemRanges).filterMap oemIdTo ++
    (rangeIds [systemReservedRange]).filterMap oemIdTo ++ (rangeIds (appRanges isGroup)).filterMap appIdTo

/-- The passwd entries `getpwent` is meant to list. -/
def pwEntries (ids : List AndroidIdInfo) (before29 : Bool) : List Passwd :=
  entries ids androidIinfoToPasswd (oemIdToPasswd ids before29) (appIdToPasswd ids) false

/-- The group entries `getgrent` is meant to list. -/
def grEntries (ids : List AndroidIdInfo) (before29 : Bool) : List Group :=
  entries ids androidIinfoToGroup (oemIdToGroup ids before29) (appIdToGroup ids) true

/-! ## `get_next_app_id` on ascending ranges -/

/-- Ranges in increasing order, each nonempty, with a gap or at least a step between neighbours: what
`verify_user_ranges_ascending` checks, with the ends strictly below the next start. -/
structure Ascending (ranges : List IdRange) : Prop where
  pairwise : ranges.Pairwise fun p q ↦ p.end < q.start
  start_le : ∀ r ∈ ranges, r.start ≤ r.end

namespace Ascending

variable {a : IdRange} {ranges : List IdRange}

theorem tail (h : Ascending (a :: ranges)) : Ascending ranges :=
  ⟨(List.pairwise_cons.1 h.pairwise).2, fun r hr ↦ h.start_le r (List.mem_cons_of_mem _ hr)⟩

theorem head_start_le (h : Ascending ranges) {r : IdRange} (hr : r ∈ ranges) :
    (ranges.headD ⟨0, 0⟩).start ≤ r.start := by
  cases ranges with
  | nil => simp at hr
  | cons a rest =>
    rcases List.mem_cons.1 hr with rfl | hr
    · exact le_rfl
    · have hlt := (List.pairwise_cons.1 h.pairwise).1 r hr
      have := h.start_le a List.mem_cons_self
      simp only [List.headD_cons]
      omega

theorem end_le_last (h : Ascending ranges) {r : IdRange} (hr : r ∈ ranges) :
    r.end ≤ (ranges.getLastD ⟨0, 0⟩).end := by
  induction ranges generalizing r with
  | nil => simp at hr
  | cons a rest ih =>
    cases rest with
    | nil => simp_all
    | cons b rest =>
      have hb := ih h.tail List.mem_cons_self
      simp only [List.getLastD_cons] at hb ih ⊢
      rcases List.mem_cons.1 hr with rfl | hr
      · -- the first range ends before the second starts, which is at most the last end
        have hlt := (List.pairwise_cons.1 h.pairwise).1 b List.mem_cons_self
        have := h.start_le b (List.mem_cons_of_mem _ List.mem_cons_self)
        omega
      · exact ih h.tail hr

theorem find?_gap_eq_none (h : Ascending ranges) {r : IdRange} (hr : r ∈ ranges) {x : ℕ}
    (h₁ : r.start ≤ x) (h₂ : x ≤ r.end) :
    (ranges.zip ranges.tail).find? (fun p ↦ p.1.end < x && x < p.2.start) = none := by
  induction ranges with
  | nil => rfl
  | cons a rest ih =>
    cases rest with
    | nil => rfl
    | cons b rest =>
      have hab := List.pairwise_cons.1 h.pairwise
      rw [List.tail_cons, List.zip_cons_cons, List.find?_cons_of_neg]
      · rcases List.mem_cons.1 hr with rfl | hr
        · -- `x` is in the first range: every later range ends after it
          rw [List.find?_eq_none]
          intro p hp
          have hp₁ : p.1 ∈ b :: rest := (List.of_mem_zip hp).1
          have := hab.1 p.1 hp₁
          have := h.start_le p.1 (List.mem_cons_of_mem _ hp₁)
          simp only [Bool.and_eq_true, decide_eq_true_eq, not_and, not_lt]
          omega
        · exact ih h.tail hr
      · -- the first gap lies below `b`, where `x` starts at the latest
        rcases List.mem_cons.1 hr with rfl | hr
        · simp only [Bool.and_eq_true, decide_eq_true_eq, not_and, not_lt]
          omega
        · have hb : b.start ≤ r.start := by
            rcases List.mem_cons.1 hr with rfl | hr
            · exact le_rfl
            · have := (List.pairwise_cons.1 hab.2).1 r hr
              have := h.start_le b (List.mem_cons_of_mem _ List.mem_cons_self)
              omega
          simp only [Bool.and_eq_true, decide_eq_true_eq, not_and, not_lt]
          omega

end Ascending

theorem nextAppIdIn_of_lt {ranges : List IdRange} {i : ℕ} (h : i < (ranges.headD ⟨0, 0⟩).start) :
    nextAppIdIn ranges i = (ranges.headD ⟨0, 0⟩).start := by
  unfold nextAppIdIn
  rw [if_pos h]

theorem nextAppIdIn_succ {ranges : List IdRange} (hR : Ascending ranges) {r : IdRange}
    (hr : r ∈ ranges) (hbound : r.end < 2 ^ 32) {i : ℕ} (h₁ : r.start ≤ i) (h₂ : i < r.end) :
    nextAppIdIn ranges i = i + 1 := by
  have hfirst := hR.head_start_le hr
  have hlast := hR.end_le_last hr
  have hmod : (i + 1) % 2 ^ 32 = i + 1 := Nat.mod_eq_of_lt (by omega)
  have hnone := hR.find?_gap_eq_none hr (x := i + 1) (by omega) (by omega)
  unfold nextAppIdIn
  rw [if_neg (by omega)]
  simp only [hmod, hnone]
  rw [if_neg (by omega)]

theorem appRanges_ascending (isGroup : Bool) : Ascending (appRanges isGroup) := by
  cases isGroup <;> exact ⟨by decide, by decide⟩


theorem getNextAppId_of_lt (isGroup : Bool) {i : ℕ} (h : i < aidAppStart) :
    getNextAppId i isGroup = aidAppStart := by
  cases isGroup <;> exact nextAppIdIn_of_lt h

theorem getNextAppId_succ (isGroup : Bool) {r : IdRange} (hr : r ∈ appRanges isGroup) {i : ℕ}
    (h₁ : r.start ≤ i) (h₂ : i < r.end) : getNextAppId i isGroup = i + 1 := by
  have hlast := (appRanges_ascending isGroup).end_le_last hr
  have hend : ((appRanges isGroup).getLastD ⟨0, 0⟩).end = aidIsolatedEnd := by cases isGroup <;> rfl
  exact nextAppIdIn_succ (appRanges_ascending isGroup) hr (by simp only [aidIsolatedEnd] at hend; omega)
    h₁ h₂

theorem getNextAppId_gap (isGroup : Bool) :
    (appRanges isGroup).IsChain fun p q ↦
      aidAppStart ≤ p.end ∧ p.end < 2 ^ 32 ∧ q.start < 2 ^ 31 ∧ getNextAppId p.end isGroup = q.start := by
  cases isGroup <;> decide

theorem getNextAppId_last (isGroup : Bool) : getNextAppId aidIsolatedEnd isGroup = 2 ^ 32 - 1 := by
  cases isGroup <;> decide

theorem getNextAppId_max (isGroup : Bool) : getNextAppId (2 ^ 32 - 1) isGroup = 0 := by
  cases isGroup <;> decide

/-! ## One call -/

section Steps

variable (ids : List AndroidIdInfo) {α : Type} (toEntry : AndroidIdInfo → α)
  (oemIdTo appIdTo : ℕ → Option α) (isGroup lp64 : Bool)

theorem oemReserved_card : ((aidOemReservedEnd - aidOemReservedStart + 1 : ℕ) : ℤ) = 100 := rfl
theorem oemReserved2_card : ((aidOemReserved2End - aidOemReserved2Start + 1 : ℕ) : ℤ) = 1000 := rfl
theorem systemReserved_card : ((aidSystemExtReservedEnd - aidSystemReservedStart + 1 : ℕ) : ℤ) = 1000 := rfl

theorem getent_table {idx : ℤ} (h₀ : 0 ≤ idx) (h : idx < ids.length) :
    getent ids toEntry oemIdTo appIdTo isGroup lp64 idx =
      (some (toEntry (ids.get ⟨idx.toNat, by omega⟩)), idx + 1) := by
  rw [getent, dif_neg (by omega), dif_pos h]

theorem getent_oem {idx : ℤ} (h₁ : ids.length ≤ idx) (h₂ : idx < ids.length + 100) :
    getent ids toEntry oemIdTo appIdTo isGroup lp64 idx =
      (oemIdTo (toId (idx - ids.length + aidOemReservedStart)), idx + 1) := by
  have := oemReserved_card
  rw [getent, dif_neg (by omega), dif_neg (by omega)]
  exact if_pos (by omega)

theorem getent_oem2 {idx : ℤ} (h₁ : ids.length + 100 ≤ idx) (h₂ : idx < ids.length + 1100) :
    getent ids toEntry oemIdTo appIdTo isGroup lp64 idx =
      (oemIdTo (toId (idx - (ids.length + 100) + aidOemReserved2Start)), idx + 1) := by
  have := oemReserved_card
  have := oemReserved2_card
  rw [getent, dif_neg (by omega), dif_neg (by omega)]
  dsimp only
  rw [if_neg (by omega), if_pos (by omega), oemReserved_card]

/-- Past the OEM ranges a call is the scan of the system-reserved ids from the index, then the
next app id when the scan finds none. -/
theorem getent_eq_scan {idx : ℤ} (h : ids.length + 1100 ≤ idx) :
    getent ids toEntry oemIdTo appIdTo isGroup lp64 idx =
      let scan := scanReserved (fun i ↦ oemIdTo (toId (i - (ids.length + 1100) + aidSystemReservedStart)))
        (ids.length + 2100 - idx).toNat idx
      match scan.1 with
      | some a => (some a, scan.2)
      | none => nextAppEntry appIdTo isGroup lp64 scan.2 := by
  have := oemReserved_card
  have := oemReserved2_card
  have := systemReserved_card
  have hstart : (ids.length : ℤ) + 100 + 1000 = ids.length + 1100 := by omega
  have hend : (ids.length : ℤ) + 1100 + 1000 = ids.length + 2100 := by omega
  rw [getent, dif_neg (by omega), dif_neg (by omega)]
  dsimp only
  rw [if_neg (by omega), if_neg (by omega)]
  split_ifs with h₃
  · simp only [oemReserved_card, oemReserved2_card, systemReserved_card, hstart, hend]
  · -- past the system-reserved ids the scan is empty
    rw [show ((ids.length : ℤ) + 2100 - idx).toNat = 0 by omega]
    rfl

theorem getent_reserved_some {idx : ℤ} (h₁ : ids.length + 1100 ≤ idx) (h₂ : idx < ids.length + 2100)
    {a : α} (ha : oemIdTo (toId (idx - (ids.length + 1100) + aidSystemReservedStart)) = some a) :
    getent ids toEntry oemIdTo appIdTo isGroup lp64 idx = (some a, idx + 1) := by
  rw [getent_eq_scan ids toEntry oemIdTo appIdTo isGroup lp64 h₁,
    show ((ids.length : ℤ) + 2100 - idx).toNat = ((ids.length : ℤ) + 2100 - idx).toNat - 1 + 1 by omega]
  simp only [scanReserved, ha]

theorem getent_reserved_none {idx : ℤ} (h₁ : ids.length + 1100 ≤ idx) (h₂ : idx < ids.length + 2100)
    (hn : oemIdTo (toId (idx - (ids.length + 1100) + aidSystemReservedStart)) = none) :
    getent ids toEntry oemIdTo appIdTo isGroup lp64 idx =
      getent ids toEntry oemIdTo appIdTo isGroup lp64 (idx + 1) := by
  rw [getent_eq_scan ids toEntry oemIdTo appIdTo isGroup lp64 h₁,
    getent_eq_scan ids toEntry oemIdTo appIdTo isGroup lp64 (by omega),
    show ((ids.length : ℤ) + 2100 - idx).toNat = ((ids.length : ℤ) + 2100 - (idx + 1)).toNat + 1 by omega]
  simp only [scanReserved, hn]

theorem getent_app {idx : ℤ} (h : ids.length + 2100 ≤ idx) :
    getent ids toEntry oemIdTo appIdTo isGroup lp64 idx = nextAppEntry appIdTo isGroup lp64 idx := by
  rw [getent_eq_scan ids toEntry oemIdTo appIdTo isGroup lp64 (by omega),
    show ((ids.length : ℤ) + 2100 - idx).toNat = 0 by omega]
  rfl

theorem getent_neg {idx : ℤ} (h : idx < 0) :
    getent ids toEntry oemIdTo appIdTo isGroup lp64 idx = (none, idx) := by
  rw [getent, dif_pos h]

theorem nextAppEntry_of_getNextAppId {i j : ℕ} (hi : i < 2 ^ 32) (hj : j < 2 ^ 31)
    (h : getNextAppId i isGroup = j) : nextAppEntry appIdTo isGroup lp64 i = (appIdTo j, (j : ℤ)) := by
  have hne : (j : ℤ) ≠ -1 := by omega
  simp only [nextAppEntry, toId_natCast hi, h, ssizeOfId_of_lt lp64 hj, toId_natCast (by omega : j < 2 ^ 32),
    if_pos hne]

theorem nextAppEntry_last :
    nextAppEntry appIdTo isGroup lp64 aidIsolatedEnd =
      if lp64 then (appIdTo (2 ^ 32 - 1), 2 ^ 32 - 1) else (none, -1) := by
  have hid : toId (aidIsolatedEnd : ℕ) = aidIsolatedEnd := toId_natCast (by decide)
  unfold nextAppEntry
  rw [hid, getNextAppId_last]
  cases lp64 <;> simp [ssizeOfId, toId]

theorem nextAppEntry_max :
    nextAppEntry appIdTo isGroup lp64 (2 ^ 32 - 1) = (appIdTo 0, 0) := by
  have h := nextAppEntry_of_getNextAppId appIdTo isGroup lp64 (i := 2 ^ 32 - 1) (j := 0) (by decide)
    (by decide) (getNextAppId_max isGroup)
  exact_mod_cast h

end Steps

/-! ## Runs -/

theorem rangeIds_cons {r : IdRange} (h : r.start ≤ r.end) (rs : List IdRange) :
    rangeIds (r :: rs) = r.start :: (List.range' (r.start + 1) (r.end - r.start) ++ rangeIds rs) := by
  rw [rangeIds, List.flatMap_cons, show r.end + 1 - r.start = r.end - r.start + 1 by omega,
    List.range'_succ]
  rfl

theorem map_eq_map_some_filterMap {β γ : Type} {f : β → Option γ} {l : List β}
    (h : ∀ x ∈ l, (f x).isSome) : l.map f = (l.filterMap f).map some := by
  induction l with
  | nil => rfl
  | cons x l ih =>
    obtain ⟨y, hy⟩ := Option.isSome_iff_exists.1 (h x List.mem_cons_self)
    rw [List.map_cons, List.filterMap_cons_some hy, List.map_cons, hy,
      ih fun z hz ↦ h z (List.mem_cons_of_mem _ hz)]

theorem mem_rangeIds {x : ℕ} {ranges : List IdRange} :
    x ∈ rangeIds ranges ↔ ∃ r ∈ ranges, r.start ≤ x ∧ x ≤ r.end := by
  simp only [rangeIds, List.mem_flatMap, List.mem_range']
  constructor
  · rintro ⟨r, hr, i, hi, rfl⟩
    exact ⟨r, hr, by omega, by omega⟩
  · rintro ⟨r, hr, h₁, h₂⟩
    exact ⟨r, hr, x - r.start, by omega, by omega⟩

section Ranges

variable {β : Type} (step : ℤ → β × ℤ) (out : ℕ → β)

theorem calls_range (r : IdRange) (hle : r.start ≤ r.end)
    (hsucc : ∀ i : ℕ, r.start ≤ i → i < r.end → step i = (out (i + 1), (i : ℤ) + 1)) :
    calls step (r.end - r.start) r.start =
      ((List.range' (r.start + 1) (r.end - r.start)).map out, (r.end : ℤ)) := by
  have h := calls_of_getElem step ((List.range' (r.start + 1) (r.end - r.start)).map out) r.start
    fun j hj ↦ by
      simp only [List.length_map, List.length_range'] at hj
      have hj' := hsucc (r.start + j) (by omega) (by omega)
      push_cast at hj'
      rw [List.getElem_map, List.getElem_range', hj', Nat.one_mul, Nat.add_right_comm]
  simp only [List.length_map, List.length_range'] at h
  rw [h]
  simp only [Prod.mk.injEq, true_and]
  omega

/-- Calls that walk ranges in order: inside a range to the next id, and from the end of a range
to the start of the next. They return every id after the first, each once. -/
theorem calls_rangeIds (r : IdRange) (rs : List IdRange) (hle : ∀ q ∈ r :: rs, q.start ≤ q.end)
    (hsucc : ∀ q ∈ r :: rs, ∀ i : ℕ, q.start ≤ i → i < q.end → step i = (out (i + 1), (i : ℤ) + 1))
    (hgap : (r :: rs).IsChain fun p q ↦ step p.end = (out q.start, (q.start : ℤ))) :
    calls step ((rangeIds (r :: rs)).length - 1) r.start =
      ((rangeIds (r :: rs)).tail.map out, (((r :: rs).getLast (List.cons_ne_nil r rs)).end : ℤ)) := by
  induction rs generalizing r with
  | nil =>
    rw [rangeIds_cons (hle r List.mem_cons_self), List.length_cons, Nat.add_sub_cancel, List.tail_cons]
    simpa [rangeIds] using calls_range step out r (hle r List.mem_cons_self) (hsucc r List.mem_cons_self)
  | cons q rs ih =>
    -- the range `r`, the step to `q.start`, then the ranges from `q` on
    have hr := calls_range step out r (hle r List.mem_cons_self) (hsucc r List.mem_cons_self)
    have hq : step r.end = (out q.start, (q.start : ℤ)) := (List.isChain_cons_cons.1 hgap).1
    have hqle := hle q (List.mem_cons_of_mem _ List.mem_cons_self)
    have hrest := ih q (fun p hp ↦ hle p (List.mem_cons_of_mem _ hp))
      (fun p hp ↦ hsucc p (List.mem_cons_of_mem _ hp)) (List.isChain_cons_cons.1 hgap).2
    rw [rangeIds_cons hqle, List.length_cons, Nat.add_sub_cancel, List.tail_cons] at hrest
    rw [rangeIds_cons (hle r List.mem_cons_self), rangeIds_cons hqle,
      List.tail_cons, List.length_cons, Nat.add_sub_cancel, List.length_append, List.length_range',
      List.length_cons, calls_add, hr, calls_succ, hq]
    dsimp only
    rw [hrest]
    simp [List.getLast_cons]

end Ranges

section Run

variable (ids : List AndroidIdInfo) {α : Type} (toEntry : AndroidIdInfo → α)
  (oemIdTo appIdTo : ℕ → Option α) (isGroup lp64 : Bool)

theorem calls_getent_table_oem :
    calls (getent ids toEntry oemIdTo appIdTo isGroup lp64) (ids.length + (rangeIds oemRanges).length) 0 =
      (ids.map (some ∘ toEntry) ++ (rangeIds oemRanges).map oemIdTo, (ids.length : ℤ) + 1100) := by
  have hoem : rangeIds oemRanges =
      List.range' aidOemReservedStart 100 ++ List.range' aidOemReserved2Start 1000 := by
    simp [rangeIds, oemRanges, aidOemReservedStart, aidOemReservedEnd, aidOemReserved2Start,
      aidOemReserved2End]
  have htable := calls_of_getElem (getent ids toEntry oemIdTo appIdTo isGroup lp64)
    (ids.map (some ∘ toEntry)) 0 fun j hj ↦ by
      rw [List.length_map] at hj
      rw [Int.zero_add, getent_table ids toEntry oemIdTo appIdTo isGroup lp64 (by omega) (by omega)]
      simp
  have hoem1 := calls_of_getElem (getent ids toEntry oemIdTo appIdTo isGroup lp64)
    ((List.range' aidOemReservedStart 100).map oemIdTo) ids.length fun j hj ↦ by
      simp only [List.length_map, List.length_range'] at hj
      have hid : toId ((ids.length : ℤ) + j - ids.length + aidOemReservedStart) = aidOemReservedStart + j := by
        rw [show (ids.length : ℤ) + j - ids.length + aidOemReservedStart =
          ((aidOemReservedStart + j : ℕ) : ℤ) by push_cast; omega]
        exact toId_natCast (by simp only [aidOemReservedStart]; omega)
      rw [getent_oem ids toEntry oemIdTo appIdTo isGroup lp64 (by omega) (by omega), hid]
      simp
  have hoem2 := calls_of_getElem (getent ids toEntry oemIdTo appIdTo isGroup lp64)
    ((List.range' aidOemReserved2Start 1000).map oemIdTo) (ids.length + 100) fun j hj ↦ by
      simp only [List.length_map, List.length_range'] at hj
      have hid : toId ((ids.length : ℤ) + 100 + j - (ids.length + 100) + aidOemReserved2Start) =
          aidOemReserved2Start + j := by
        rw [show (ids.length : ℤ) + 100 + j - (ids.length + 100) + aidOemReserved2Start =
          ((aidOemReserved2Start + j : ℕ) : ℤ) by push_cast; omega]
        exact toId_natCast (by simp only [aidOemReserved2Start]; omega)
      rw [getent_oem2 ids toEntry oemIdTo appIdTo isGroup lp64 (by omega) (by omega), hid]
      simp
  simp only [List.length_map, List.length_range', Int.zero_add, Nat.cast_ofNat] at htable hoem1 hoem2
  rw [hoem, List.length_append, List.length_range', List.length_range', ← Nat.add_assoc]
  simp only [calls_add, htable, hoem1, hoem2, List.map_append, List.append_assoc, Prod.mk.injEq,
    true_and]
  omega

/-- From the `n`-th last system-reserved id on, the calls return those that resolve, and the call
after them the first app id. -/
theorem calls_getent_reserved (hlen : ids.length + 2100 < aidAppStart) (n : ℕ) (hn : n ≤ 1000) :
    calls (getent ids toEntry oemIdTo appIdTo isGroup lp64)
        (((List.range' (aidSystemExtReservedEnd + 1 - n) n).filterMap oemIdTo).length + 1)
        ((ids.length : ℤ) + 2100 - n) =
      (((List.range' (aidSystemExtReservedEnd + 1 - n) n).filterMap oemIdTo).map some ++
        [appIdTo aidAppStart], (aidAppStart : ℤ)) := by
  induction n with
  | zero =>
    -- past the system-reserved ids: the first app id
    have happ := nextAppEntry_of_getNextAppId appIdTo isGroup lp64 (i := ids.length + 2100)
      (j := aidAppStart) (by simp only [aidAppStart] at hlen; omega) (by decide)
      (getNextAppId_of_lt isGroup hlen)
    push_cast at happ
    simp [getent_app ids toEntry oemIdTo appIdTo isGroup lp64 le_rfl, happ]
  | succ n ih =>
    have hidx : (ids.length : ℤ) + 2100 - (n + 1 : ℕ) - (ids.length + 1100) + aidSystemReservedStart =
        ((aidSystemExtReservedEnd - n : ℕ) : ℤ) := by
      simp only [aidSystemReservedStart, aidSystemExtReservedEnd]
      omega
    have hid : toId ((ids.length : ℤ) + 2100 - (n + 1 : ℕ) - (ids.length + 1100) + aidSystemReservedStart) =
        aidSystemExtReservedEnd - n := by
      rw [hidx]
      exact toId_natCast (by simp only [aidSystemExtReservedEnd]; omega)
    have hrange : List.range' (aidSystemExtReservedEnd + 1 - (n + 1)) (n + 1) =
        (aidSystemExtReservedEnd - n) :: List.range' (aidSystemExtReservedEnd + 1 - n) n := by
      have e : aidSystemExtReservedEnd = 6999 := rfl
      rw [List.range'_succ, show aidSystemExtReservedEnd + 1 - (n + 1) = aidSystemExtReservedEnd - n by omega,
        show aidSystemExtReservedEnd - n + 1 = aidSystemExtReservedEnd + 1 - n by omega]
    have hnext : (ids.length : ℤ) + 2100 - (n + 1 : ℕ) + 1 = ids.length + 2100 - n := by
      push_cast
      omega
    have h₁ : (ids.length : ℤ) + 1100 ≤ ids.length + 2100 - (n + 1 : ℕ) := by omega
    have h₂ : (ids.length : ℤ) + 2100 - (n + 1 : ℕ) < ids.length + 2100 := by omega
    rw [hrange]
    cases hx : oemIdTo (aidSystemExtReservedEnd - n) with
    | none =>
      -- skipped inside the call that reads it
      rw [List.filterMap_cons_none hx, calls_succ,
        getent_reserved_none ids toEntry oemIdTo appIdTo isGroup lp64 h₁ h₂ (by rw [hid]; exact hx),
        ← calls_succ, hnext, ih (by omega)]
    | some a =>
      rw [List.filterMap_cons_some hx, List.length_cons, calls_succ,
        getent_reserved_some ids toEntry oemIdTo appIdTo isGroup lp64 h₁ h₂ (by rw [hid]; exact hx)]
      dsimp only
      rw [hnext, ih (by omega)]
      simp

/-- From index 0 the calls return the table, the OEM entries, the system-reserved entries that
resolve and every app id of the first user in increasing order, and leave the index at the last
app id. -/
theorem calls_getent (hlen : ids.length + 2100 < aidAppStart) :
    calls (getent ids toEntry oemIdTo appIdTo isGroup lp64)
        (ids.length + (rangeIds oemRanges).length +
          ((rangeIds [systemReservedRange]).filterMap oemIdTo).length +
          (rangeIds (appRanges isGroup)).length) 0 =
      (ids.map (some ∘ toEntry) ++ (rangeIds oemRanges).map oemIdTo ++
        ((rangeIds [systemReservedRange]).filterMap oemIdTo).map some ++
        (rangeIds (appRanges isGroup)).map appIdTo, (aidIsolatedEnd : ℤ)) := by
  have e₁ : aidAppStart = 10000 := rfl
  have e₂ : aidIsolatedEnd = 99999 := rfl
  obtain ⟨rs, hR⟩ : ∃ rs, appRanges isGroup = ⟨aidAppStart, aidAppEnd⟩ :: rs := by
    cases isGroup <;> exact ⟨_, rfl⟩
  have hlast : ∀ h, ((appRanges isGroup).getLast h).end = aidIsolatedEnd := by
    cases isGroup <;> intro h <;> rfl
  have hasc := appRanges_ascending isGroup
  have hgap := getNextAppId_gap isGroup
  have hsucc := @getNextAppId_succ isGroup
  rw [hR] at hlast hasc hgap hsucc
  -- the system-reserved phase starts where the OEM ranges end
  have hres := calls_getent_reserved ids toEntry oemIdTo appIdTo isGroup lp64 hlen 1000 le_rfl
  have hsys : List.range' (aidSystemExtReservedEnd + 1 - 1000) 1000 = rangeIds [systemReservedRange] := by
    simp [rangeIds, systemReservedRange, aidSystemReservedStart, aidSystemExtReservedEnd]
  rw [hsys, show (ids.length : ℤ) + 2100 - (1000 : ℕ) = ids.length + 1100 by push_cast; omega] at hres
  -- the app ids: inside a range to the next id, from a range's end to the next start
  have happ := calls_rangeIds (getent ids toEntry oemIdTo appIdTo isGroup lp64) appIdTo
    ⟨aidAppStart, aidAppEnd⟩ rs hasc.start_le
    (fun q hq i h₁ h₂ ↦ by
      have hq₀ := hasc.head_start_le hq
      have hq₁ := hasc.end_le_last hq
      rw [List.headD_cons] at hq₀
      rw [List.getLastD_eq_getLast?, List.getLast?_eq_some_getLast (List.cons_ne_nil _ _),
        Option.getD_some, hlast] at hq₁
      rw [getent_app ids toEntry oemIdTo appIdTo isGroup lp64 (by dsimp only at hq₀; omega)]
      exact_mod_cast nextAppEntry_of_getNextAppId appIdTo isGroup lp64 (i := i) (j := i + 1)
        (by omega) (by omega) (hsucc hq h₁ h₂))
    (hgap.imp fun p q ⟨hp₀, hp, hq, hpq⟩ ↦ by
      rw [getent_app ids toEntry oemIdTo appIdTo isGroup lp64 (by omega)]
      exact_mod_cast nextAppEntry_of_getNextAppId appIdTo isGroup lp64 hp hq hpq)
  rw [hlast] at happ
  rw [hR]
  rw [rangeIds_cons (r := ⟨aidAppStart, aidAppEnd⟩) (by decide) rs] at happ ⊢
  dsimp only at happ ⊢
  simp only [List.length_cons, Nat.add_sub_cancel, List.tail_cons, List.map_cons] at happ ⊢
  generalize List.range' (aidAppStart + 1) (aidAppEnd - aidAppStart) ++ rangeIds rs = T at happ ⊢
  generalize (rangeIds [systemReservedRange]).filterMap oemIdTo = F at hres ⊢
  -- the table and OEM ranges, the system-reserved scan ending on the first app id, the app ids
  rw [show ids.length + (rangeIds oemRanges).length + F.length + (T.length + 1) =
      ids.length + (rangeIds oemRanges).length + (F.length + 1) + T.length by omega,
    calls_add, calls_add, calls_getent_table_oem, hres]
  dsimp only
  rw [happ]
  simp

theorem calls_getent_entries (hlen : ids.length + 2100 < aidAppStart)
    (hoem : ∀ x ∈ rangeIds oemRanges, (oemIdTo x).isSome)
    (happ : ∀ x ∈ rangeIds (appRanges isGroup), (appIdTo x).isSome) :
    calls (getent ids toEntry oemIdTo appIdTo isGroup lp64)
        (entries ids toEntry oemIdTo appIdTo isGroup).length 0 =
      ((entries ids toEntry oemIdTo appIdTo isGroup).map some, (aidIsolatedEnd : ℤ)) := by
  have h₁ := map_eq_map_some_filterMap hoem
  have h₂ := map_eq_map_some_filterMap happ
  have l₁ : ((rangeIds oemRanges).filterMap oemIdTo).length = (rangeIds oemRanges).length := by
    simpa using (congrArg List.length h₁).symm
  have l₂ : ((rangeIds (appRanges isGroup)).filterMap appIdTo).length =
      (rangeIds (appRanges isGroup)).length := by
    simpa using (congrArg List.length h₂).symm
  simp only [entries, List.length_append, List.length_map, l₁, l₂]
  rw [calls_getent ids toEntry oemIdTo appIdTo isGroup lp64 hlen, h₁, h₂]
  simp [List.map_map]

/-- On LP64 the round ends with two `nullptr`s, from 4294967295 and from 0, and the index is back
at 0. -/
theorem calls_getent_round_lp64 (hlen : ids.length + 2100 < aidAppStart)
    (hoem : ∀ x ∈ rangeIds oemRanges, (oemIdTo x).isSome)
    (happ : ∀ x ∈ rangeIds (appRanges isGroup), (appIdTo x).isSome)
    (hmax : appIdTo (2 ^ 32 - 1) = none) (hzero : appIdTo 0 = none) :
    calls (getent ids toEntry oemIdTo appIdTo isGroup true)
        ((entries ids toEntry oemIdTo appIdTo isGroup).length + 2) 0 =
      ((entries ids toEntry oemIdTo appIdTo isGroup).map some ++ [none, none], 0) := by
  have hlast : getent ids toEntry oemIdTo appIdTo isGroup true aidIsolatedEnd = (none, 2 ^ 32 - 1) := by
    rw [getent_app ids toEntry oemIdTo appIdTo isGroup true
      (by simp only [aidAppStart] at hlen; simp only [aidIsolatedEnd]; omega), nextAppEntry_last,
      if_pos rfl, hmax]
  have hwrap : getent ids toEntry oemIdTo appIdTo isGroup true (2 ^ 32 - 1) = (none, 0) := by
    rw [getent_app ids toEntry oemIdTo appIdTo isGroup true
      (by simp only [aidAppStart] at hlen; omega), nextAppEntry_max, hzero]
  rw [calls_add, calls_getent_entries ids toEntry oemIdTo appIdTo isGroup true hlen hoem happ]
  dsimp only
  rw [calls_succ, hlast]
  dsimp only
  rw [calls_succ, hwrap]
  simp

theorem calls_getent_ilp32 (hlen : ids.length + 2100 < aidAppStart)
    (hoem : ∀ x ∈ rangeIds oemRanges, (oemIdTo x).isSome)
    (happ : ∀ x ∈ rangeIds (appRanges isGroup), (appIdTo x).isSome) (m : ℕ) :
    calls (getent ids toEntry oemIdTo appIdTo isGroup false)
        ((entries ids toEntry oemIdTo appIdTo isGroup).length + (m + 1)) 0 =
      ((entries ids toEntry oemIdTo appIdTo isGroup).map some ++ List.replicate (m + 1) none, -1) := by
  have hlast : getent ids toEntry oemIdTo appIdTo isGroup false aidIsolatedEnd = (none, -1) := by
    rw [getent_app ids toEntry oemIdTo appIdTo isGroup false
      (by simp only [aidAppStart] at hlen; simp only [aidIsolatedEnd]; omega), nextAppEntry_last]
    rfl
  have hend := calls_of_fixed _ (getent_neg ids toEntry oemIdTo appIdTo isGroup false
    (by decide : (-1 : ℤ) < 0)) m
  rw [calls_add, calls_getent_entries ids toEntry oemIdTo appIdTo isGroup false hlen hoem happ]
  simp [hlast, hend, List.replicate_succ]

end Run


/-! ## `getpwent` and `getgrent` -/

section Lookups

variable (ids : List AndroidIdInfo) (before29 : Bool)

theorem isOemId_of_mem_oemRanges {x : ℕ} (hx : x ∈ rangeIds oemRanges) : isOemId ids before29 x = true := by
  obtain ⟨r, hr, h₁, h₂⟩ := mem_rangeIds.1 hx
  simp only [oemRanges, List.mem_cons, List.not_mem_nil, or_false] at hr
  rcases hr with rfl | rfl <;>
    simp only [aidOemReservedStart, aidOemReservedEnd, aidOemReserved2Start, aidOemReserved2End] at h₁ h₂ <;>
    simp [isOemId, aidOemReservedStart, aidOemReservedEnd, aidOemReserved2Start, aidOemReserved2End, h₁,
      h₂]

theorem isValidAppId_of_mem (isGroup : Bool) {uid : ℕ} (h : uid ∈ rangeIds (appRanges isGroup)) :
    isValidAppId uid isGroup = true := by
  obtain ⟨r, hr, h₁, h₂⟩ := mem_rangeIds.1 h
  cases isGroup <;> simp only [appRanges, userRanges, groupRanges, Bool.false_eq_true, if_false,
    if_true, List.mem_cons, List.not_mem_nil, or_false] at hr <;>
    rcases hr with rfl | rfl | rfl | rfl | rfl | rfl <;>
    simp only [aidAppStart, aidAppEnd, aidIsolatedStart, aidIsolatedEnd, aidCacheGidStart, aidCacheGidEnd,
      aidExtGidStart, aidExtGidEnd, aidExtCacheGidStart, aidExtCacheGidEnd, aidSharedGidStart,
      aidSharedGidEnd] at h₁ h₂ <;>
    simp [isValidAppId, userRanges, groupRanges, aidUserOffset, aidOverflowuid, aidAppStart, aidAppEnd,
      aidIsolatedStart, aidIsolatedEnd, aidCacheGidStart, aidCacheGidEnd, aidExtGidStart, aidExtGidEnd,
      aidExtCacheGidStart, aidExtCacheGidEnd, aidSharedGidStart, aidSharedGidEnd,
      Nat.mod_eq_of_lt (show uid < 100000 by omega)] <;>
    omega

theorem aidAppStart_le_of_mem (isGroup : Bool) {uid : ℕ} (h : uid ∈ rangeIds (appRanges isGroup)) :
    aidAppStart ≤ uid := by
  obtain ⟨r, hr, h₁, -⟩ := mem_rangeIds.1 h
  have hhead : ((appRanges isGroup).headD ⟨0, 0⟩).start = aidAppStart := by cases isGroup <;> rfl
  have := (appRanges_ascending isGroup).head_start_le hr
  omega

theorem oemIdToPasswd_isSome {x : ℕ} (hx : x ∈ rangeIds oemRanges) :
    (oemIdToPasswd ids before29 x).isSome := by
  simp [oemIdToPasswd, isOemId_of_mem_oemRanges ids before29 hx]

theorem oemIdToGroup_isSome {x : ℕ} (hx : x ∈ rangeIds oemRanges) :
    (oemIdToGroup ids before29 x).isSome := by
  simp [oemIdToGroup, isOemId_of_mem_oemRanges ids before29 hx]

theorem appIdToPasswd_isSome {uid : ℕ} (h : uid ∈ rangeIds (appRanges false)) :
    (appIdToPasswd ids uid).isSome := by
  have := aidAppStart_le_of_mem false h
  simp [appIdToPasswd, isValidAppId_of_mem false h, not_lt.2 this]

theorem appIdToGroup_isSome {gid : ℕ} (h : gid ∈ rangeIds (appRanges true)) :
    (appIdToGroup ids gid).isSome := by
  have := aidAppStart_le_of_mem true h
  simp [appIdToGroup, isValidAppId_of_mem true h, not_lt.2 this]

theorem appIdToPasswd_max : appIdToPasswd ids (2 ^ 32 - 1) = none := by
  simp only [appIdToPasswd, show isValidAppId (2 ^ 32 - 1) false = false by decide, Bool.not_false,
    Bool.or_true, if_true]

theorem appIdToGroup_max : appIdToGroup ids (2 ^ 32 - 1) = none := by
  simp only [appIdToGroup, show isValidAppId (2 ^ 32 - 1) true = false by decide, Bool.not_false,
    Bool.or_true, if_true]

theorem appIdToPasswd_zero : appIdToPasswd ids 0 = none := by
  simp [appIdToPasswd, aidAppStart]

theorem appIdToGroup_zero : appIdToGroup ids 0 = none := by
  simp [appIdToGroup, aidAppStart]

end Lookups

section Enumeration

variable (ids : List AndroidIdInfo) (before29 : Bool)

/-- On LP64 the enumeration never ends: after the entries come two `nullptr`s, and the index is
back at the start of the table, so `getpwent` (`getgrent`) lists every entry again, round after
round. -/
theorem getpwent_getgrent_repeat_lp64 (hlen : ids.length + 2100 < aidAppStart) (m : ℕ) :
    calls (getpwent ids before29 true) (m * ((pwEntries ids before29).length + 2)) 0 =
        ((List.replicate m ((pwEntries ids before29).map some ++ [none, none])).flatten, 0) ∧
      calls (getgrent ids before29 true) (m * ((grEntries ids before29).length + 2)) 0 =
        ((List.replicate m ((grEntries ids before29).map some ++ [none, none])).flatten, 0) :=
  ⟨calls_mul_of_return _ (calls_getent_round_lp64 ids _ _ _ false hlen
      (fun _ hx ↦ oemIdToPasswd_isSome ids before29 hx) (fun _ hx ↦ appIdToPasswd_isSome ids hx)
      (appIdToPasswd_max ids) (appIdToPasswd_zero ids)) m,
    calls_mul_of_return _ (calls_getent_round_lp64 ids _ _ _ true hlen
      (fun _ hx ↦ oemIdToGroup_isSome ids before29 hx) (fun _ hx ↦ appIdToGroup_isSome ids hx)
      (appIdToGroup_max ids) (appIdToGroup_zero ids)) m⟩

/-- With the table `root` alone, two rounds of `getpwent` and of `getgrent` on LP64. -/
theorem getpwent_getgrent_repeat_lp64_root :
    calls (getpwent [⟨"root", 0⟩] false true) (2 * ((pwEntries [⟨"root", 0⟩] false).length + 2)) 0 =
        ((List.replicate 2 ((pwEntries [⟨"root", 0⟩] false).map some ++ [none, none])).flatten, 0) ∧
      calls (getgrent [⟨"root", 0⟩] false true) (2 * ((grEntries [⟨"root", 0⟩] false).length + 2)) 0 =
        ((List.replicate 2 ((grEntries [⟨"root", 0⟩] false).map some ++ [none, none])).flatten, 0) :=
  getpwent_getgrent_repeat_lp64 [⟨"root", 0⟩] false (by decide) 2

/-- On ILP32 the enumeration ends: after the entries every call returns `nullptr`. -/
theorem getpwent_getgrent_end_ilp32 (hlen : ids.length + 2100 < aidAppStart) (m : ℕ) :
    calls (getpwent ids before29 false) ((pwEntries ids before29).length + (m + 1)) 0 =
        ((pwEntries ids before29).map some ++ List.replicate (m + 1) none, -1) ∧
      calls (getgrent ids before29 false) ((grEntries ids before29).length + (m + 1)) 0 =
        ((grEntries ids before29).map some ++ List.replicate (m + 1) none, -1) :=
  ⟨calls_getent_ilp32 ids _ _ _ false hlen (fun _ hx ↦ oemIdToPasswd_isSome ids before29 hx)
      (fun _ hx ↦ appIdToPasswd_isSome ids hx) m,
    calls_getent_ilp32 ids _ _ _ true hlen (fun _ hx ↦ oemIdToGroup_isSome ids before29 hx)
      (fun _ hx ↦ appIdToGroup_isSome ids hx) m⟩

/-- With the table `root` alone, three calls past the entries on ILP32. -/
theorem getpwent_getgrent_end_ilp32_root :
    calls (getpwent [⟨"root", 0⟩] false false) ((pwEntries [⟨"root", 0⟩] false).length + (2 + 1)) 0 =
        ((pwEntries [⟨"root", 0⟩] false).map some ++ List.replicate (2 + 1) none, -1) ∧
      calls (getgrent [⟨"root", 0⟩] false false) ((grEntries [⟨"root", 0⟩] false).length + (2 + 1)) 0 =
        ((grEntries [⟨"root", 0⟩] false).map some ++ List.replicate (2 + 1) none, -1) :=
  getpwent_getgrent_end_ilp32 [⟨"root", 0⟩] false (by decide) 2

end Enumeration

end Bionic.GrpPwd
