import Bionic.Lib.Decimal
import Mathlib.Data.List.TakeWhile
import Mathlib.Tactic.IntervalCases

/-!
# The type table of positional `printf` arguments

When `__vfprintf` meets its first `n$`, it calls `__find_arguments`, which scans the whole format
once and records in `typetable[k]` the type of argument `k`. The table starts as 8 entries on the
stack; `ADDTYPE` grows it by `__grow_type_table` to `max(2 * size, page size)` when the index is
not below its size, ignores whether that worked, raises `tablemax`, and stores. The argument table
is then filled for `1 ..= tablemax`.

The model follows the scanner case by case (`findArgs`, one phase for the text between
conversions and one for the inside of a conversion) and records an access outside the table as
the fault `outOfBounds`. `mapOk` says whether each `mmap` succeeds.

* `addType_ok_iff`: one `ADDTYPE` stays inside the table exactly when the doubled size fits in an
  `int` and the index is below the size, or below the grown size and the `mmap` worked.
* `findArguments_safe`: when every number the format spells is below the page size and `mmap`
  succeeds, no access leaves the tables.
* `findArguments_outOfBounds`: `%n$d` with `n` at least `max(16, page size)` stores at index `n`
  in a table of `max(16, page size)` entries, and with a failing `mmap` already every `n ≥ 8`
  stores outside the 8 entries on the stack.
-/

set_option autoImplicit false
set_option relaxedAutoImplicit false

namespace Bionic.Stdio.PrintfArgs

open Bionic.Lib.Decimal

/-- `STATIC_ARG_TBL_SIZE`. -/
def staticArgTblSize : ℕ := 8

/-- `INT_MAX`. -/
def intMax : ℕ := 2 ^ 31 - 1

/-- The type ids `ADDTYPE` stores (`T_*`, `TP_CHAR`, `TP_VOID`, `TP_WCHAR`). -/
inductive ArgType where
  | unused | short | uShort | int | uInt | long | uLong | llong | uLlong | double | longDouble
  | pChar | pVoid | ptrint | sizeint | ssizeint | maxint | maxuint | char | uChar | wint | pWchar
  deriving DecidableEq, Repr

/-- The length flags `__find_arguments` sets; the others it skips. -/
structure Flags where
  longDbl : Bool := false
  longInt : Bool := false
  llongInt : Bool := false
  shortInt : Bool := false
  charInt : Bool := false
  maxInt : Bool := false
  ptrInt : Bool := false
  sizeInt : Bool := false
  deriving DecidableEq, Repr

/-- How `__find_arguments` goes wrong. -/
inductive ArgFault where
  /-- A number in the format above `INT_MAX`: `ENOMEM`, and `-1`. -/
  | overflow
  /-- The `mmap` of the argument table failed: `-1`. -/
  | mapFailed
  /-- `typetable[index]` was accessed with `size` entries allocated. -/
  | outOfBounds (index size : ℕ)
  /-- `%n`: `__fortify_fatal`. -/
  | fortifyFatal
  /-- `*tablesize * 2` in `__grow_type_table` is above `INT_MAX`: an `int` overflow, which C
  leaves undefined. -/
  | sizeOverflow (size : ℕ)
  deriving DecidableEq, Repr

/-- `typetable` (its length is `tablesize`), `tablemax`, `nextarg`, and the number of `mmap` calls
made so far. -/
structure TypeTable where
  typetable : List ArgType
  tablemax : ℕ
  nextarg : ℕ
  mmapCalls : ℕ
  deriving DecidableEq, Repr

/-- The table `__find_arguments` starts with: 8 unused entries, `nextarg = 1`. -/
def initTable : TypeTable :=
  { typetable := List.replicate staticArgTblSize .unused, tablemax := 0, nextarg := 1,
    mmapCalls := 0 }

/-- `APPEND_DIGIT(val, dig)`: append a decimal digit, failing above `INT_MAX`. -/
def appendDigit (val : ℕ) (dig : Char) : Except ArgFault ℕ :=
  if intMax / 10 < val then .error .overflow
  else if intMax - (dig.toNat - 48) < val * 10 then .error .overflow
  else .ok (val * 10 + (dig.toNat - 48))

/-- The number a run of digits spells, by `APPEND_DIGIT` from 0. -/
def readNumber (digits : List Char) : Except ArgFault ℕ := digits.foldlM appendDigit 0

/-- `ADDSARG()`: the type of a signed conversion. -/
def sargType (flags : Flags) : ArgType :=
  if flags.maxInt then .maxint
  else if flags.ptrInt then .ptrint
  else if flags.sizeInt then .ssizeint
  else if flags.llongInt then .llong
  else if flags.longInt then .long
  else if flags.shortInt then .short
  else if flags.charInt then .char
  else .int

/-- `ADDUARG()`: the type of an unsigned conversion. -/
def uargType (flags : Flags) : ArgType :=
  if flags.maxInt then .maxuint
  else if flags.ptrInt then .ptrint
  else if flags.sizeInt then .sizeint
  else if flags.llongInt then .uLlong
  else if flags.longInt then .uLong
  else if flags.shortInt then .uShort
  else if flags.charInt then .uChar
  else .uInt

/-- The flag characters `__find_arguments` passes over: ` `, `#`, `'`, `-`, `+`, `0`. -/
def skippedFlag (ch : Char) : Bool :=
  ch == ' ' || ch == '#' || ch == '\'' || ch == '-' || ch == '+' || ch == '0'

/-- `L`, `j`, `q`, `t`, `z`: a length flag read without looking ahead. -/
def lengthFlag (flags : Flags) : Char → Option Flags
  | 'L' => some { flags with longDbl := true }
  | 'j' => some { flags with maxInt := true }
  | 'q' => some { flags with llongInt := true }
  | 't' => some { flags with ptrInt := true }
  | 'z' => some { flags with sizeInt := true }
  | _ => none

/-- The type a conversion character adds (`C`, `D`, `O`, `S` and `U` set `LONGINT` first). -/
def convType (flags : Flags) : Char → Option ArgType
  | 'C' => some .wint
  | 'c' => some (if flags.longInt then .wint else .int)
  | 'D' => some (sargType { flags with longInt := true })
  | 'd' | 'i' => some (sargType flags)
  | 'a' | 'A' | 'e' | 'E' | 'f' | 'F' | 'g' | 'G' =>
    some (if flags.longDbl then .longDouble else .double)
  | 'O' => some (uargType { flags with longInt := true })
  | 'o' => some (uargType flags)
  | 'p' => some .pVoid
  | 'S' => some .pWchar
  | 's' => some (if flags.longInt then .pWchar else .pChar)
  | 'U' => some (uargType { flags with longInt := true })
  | 'u' | 'X' | 'x' | 'B' | 'b' => some (uargType flags)
  | _ => none

/-- The format after `*`: past `n$` when the digits end in `$`, else unchanged. -/
def asterRest (fmt : List Char) : List Char :=
  match fmt.dropWhile Char.isDigit with
  | '$' :: cp => cp
  | _ => fmt

/-- `%w`: whether an `f` follows, and the format after it. -/
def wFast (fmt : List Char) : Bool × List Char :=
  match fmt with
  | 'f' :: rest => (true, rest)
  | _ => (false, fmt)

theorem length_asterRest_le (fmt : List Char) : (asterRest fmt).length ≤ fmt.length := by
  unfold asterRest
  split
  · next cp h =>
    have := List.length_dropWhile_le Char.isDigit fmt
    rw [h, List.length_cons] at this
    omega
  · exact Nat.le_refl _

theorem length_wFast_le (fmt : List Char) : (wFast fmt).2.length ≤ fmt.length := by
  unfold wFast
  split <;> simp

section Table

variable (pageSize : ℕ) (mapOk : ℕ → Bool)

/-- `__grow_type_table`: `int new_size = *tablesize * 2`, at least a page, entries, the new ones
`T_UNUSED`; nothing changes when the `mmap` fails. -/
def growTypeTable (t : TypeTable) : Except ArgFault TypeTable :=
  if intMax < t.typetable.length * 2 then .error (.sizeOverflow t.typetable.length)
  else if mapOk t.mmapCalls then
    .ok { t with
      typetable := t.typetable ++
        List.replicate (max (t.typetable.length * 2) pageSize - t.typetable.length) .unused
      mmapCalls := t.mmapCalls + 1 }
  else .ok { t with mmapCalls := t.mmapCalls + 1 }

/-- The table `ADDTYPE` stores into: grown when `nextarg` is not below the size. -/
def grown (t : TypeTable) : Except ArgFault TypeTable :=
  if t.typetable.length ≤ t.nextarg then growTypeTable pageSize mapOk t else .ok t

/-- `ADDTYPE(type)`: grow when `nextarg` is not below the size (the result is ignored), raise
`tablemax`, store at `nextarg` and advance it. -/
def addType (type : ArgType) (t : TypeTable) : Except ArgFault TypeTable := do
  let t ← grown pageSize mapOk t
  let t := if t.tablemax < t.nextarg then { t with tablemax := t.nextarg } else t
  if t.nextarg < t.typetable.length then
    .ok { t with typetable := t.typetable.set t.nextarg type, nextarg := t.nextarg + 1 }
  else .error (.outOfBounds t.nextarg t.typetable.length)

/-- `ADDASTER()`: a `*` width or precision is an `int`; `*n$` is argument `n`, and `nextarg` is
put back after it. -/
def addAster (fmt : List Char) (t : TypeTable) : Except ArgFault TypeTable := do
  let n2 ← readNumber (fmt.takeWhile Char.isDigit)
  match fmt.dropWhile Char.isDigit with
  | '$' :: _ =>
    let t' ← addType pageSize mapOk .int { t with nextarg := n2 }
    return { t' with nextarg := t.nextarg }
  | _ => addType pageSize mapOk .int t

/-- Where `__find_arguments` is: in the text between conversions, or inside a conversion with the
flags so far, at `reswitch` on the head of the format. -/
inductive Phase where
  | text
  | spec (flags : Flags)

def Phase.rank : Phase → ℕ
  | .text => 0
  | .spec _ => 1

variable (lp64 : Bool)

/-- The scan of `__find_arguments`, up to `done`. -/
def findArgs : Phase → List Char → TypeTable → Except ArgFault TypeTable
  | .text, [], t => .ok t
  | .text, c :: fmt, t =>
    if c = '\x00' then .ok t
    else if c = '%' then findArgs (.spec {}) fmt t
    else findArgs .text fmt t
  -- `ch = *fmt++` read the terminating NUL
  | .spec _, [], t => .ok t
  | .spec flags, ch :: fmt, t =>
    match ch with
    | '*' => do
      let t ← addAster pageSize mapOk fmt t
      findArgs (.spec flags) (asterRest fmt) t
    | '.' =>
      match _h : fmt with
      | '*' :: fmt' => do
        let t ← addAster pageSize mapOk fmt' t
        findArgs (.spec flags) (asterRest fmt') t
      -- the precision's digits are skipped, and the scan goes on at the character after them
      | _ => findArgs (.spec flags) (fmt.dropWhile Char.isDigit) t
    | 'h' =>
      match _h : fmt with
      | 'h' :: fmt' => findArgs (.spec { flags with charInt := true }) fmt' t
      | _ => findArgs (.spec { flags with shortInt := true }) fmt t
    | 'l' =>
      match _h : fmt with
      | 'l' :: fmt' => findArgs (.spec { flags with llongInt := true }) fmt' t
      | _ => findArgs (.spec { flags with longInt := true }) fmt t
    | 'w' =>
      readNumber ((wFast fmt).2.takeWhile Char.isDigit) >>= fun n ↦
        -- `%w64` is `long long`, and on LP64 so is every `%wfN` but `%wf8`
        let flags := if n = 64 ∨ (n ≠ 8 ∧ (wFast fmt).1 ∧ lp64) then
          { flags with llongInt := true } else flags
        findArgs (.spec flags) ((wFast fmt).2.dropWhile Char.isDigit) t
    | 'n' => .error .fortifyFatal
    | '\x00' => .ok t
    | _ =>
      if '1' ≤ ch ∧ ch ≤ '9' then
        readNumber (ch :: fmt.takeWhile Char.isDigit) >>= fun n ↦
          match _h : fmt.dropWhile Char.isDigit with
          | '$' :: fmt' => findArgs (.spec flags) fmt' { t with nextarg := n }
          -- a width: `reswitch` on the character after the digits
          | _ => findArgs (.spec flags) (fmt.dropWhile Char.isDigit) t
      else if skippedFlag ch then findArgs (.spec flags) fmt t
      else
        match lengthFlag flags ch with
        | some flags' => findArgs (.spec flags') fmt t
        | none =>
          match convType flags ch with
          | some type => do
            let t ← addType pageSize mapOk type t
            findArgs .text fmt t
          -- `"%?"`: the conversion ends
          | none => findArgs .text fmt t
termination_by phase fmt => 2 * fmt.length + phase.rank
decreasing_by
  all_goals simp only [Phase.rank, List.length_cons]
  all_goals grind [List.length_dropWhile_le, length_asterRest_le, length_wFast_le]

/-- `__find_arguments`: the scan, then the argument table (`mmap`ed beyond its 8 static entries)
filled for `1 ..= tablemax` by the type in `typetable[n]`; the types of those arguments. -/
def findArguments (fmt0 : List Char) : Except ArgFault (List ArgType) := do
  let t ← findArgs pageSize mapOk lp64 .text fmt0 initTable
  if staticArgTblSize ≤ t.tablemax ∧ mapOk t.mmapCalls = false then throw .mapFailed
  if t.tablemax < t.typetable.length then return (t.typetable.drop 1).take t.tablemax
  else throw (.outOfBounds t.typetable.length t.typetable.length)

end Table

/-! ## Reading numbers -/

theorem appendDigit_eq {val : ℕ} {dig : Char} (h : val * 10 + (dig.toNat - 48) ≤ intMax) :
    appendDigit val dig = .ok (val * 10 + (dig.toNat - 48)) := by
  unfold appendDigit intMax at *
  rw [if_neg (by omega), if_neg (by omega)]

theorem le_foldl_digits (acc : ℕ) (ds : List Char) :
    acc ≤ ds.foldl (fun acc c ↦ 10 * acc + (c.toNat - 48)) acc := by
  induction ds generalizing acc with
  | nil => exact Nat.le_refl _
  | cons c ds ih =>
    have := ih (10 * acc + (c.toNat - 48))
    simp only [List.foldl_cons]
    omega

theorem foldlM_appendDigit (ds : List Char) (acc : ℕ)
    (h : ds.foldl (fun acc c ↦ 10 * acc + (c.toNat - 48)) acc ≤ intMax) :
    ds.foldlM appendDigit acc = .ok (ds.foldl (fun acc c ↦ 10 * acc + (c.toNat - 48)) acc) := by
  induction ds generalizing acc with
  | nil => rfl
  | cons c ds ih =>
    simp only [List.foldl_cons] at h ⊢
    have hstep : acc * 10 + (c.toNat - 48) ≤ intMax := by
      have := le_foldl_digits (10 * acc + (c.toNat - 48)) ds
      omega
    rw [List.foldlM_cons, appendDigit_eq hstep, Nat.mul_comm acc 10]
    exact ih _ h

theorem readNumber_eq {ds : List Char} (h : digitsValue ds ≤ intMax) :
    readNumber ds = .ok (digitsValue ds) :=
  foldlM_appendDigit ds 0 h

/-! ## One `ADDTYPE` -/

section AddType

variable {pageSize : ℕ} {mapOk : ℕ → Bool}

theorem grown_of_overflow {t : TypeTable} (h : t.typetable.length ≤ t.nextarg)
    (hover : intMax < t.typetable.length * 2) :
    grown pageSize mapOk t = .error (.sizeOverflow t.typetable.length) := by
  simp [grown, growTypeTable, h, hover]

/-- Where the doubled size fits in an `int`, `ADDTYPE` stores into a table with the same
`nextarg` and `tablemax`, doubled, at least a page, when `nextarg` is not below the size and the
`mmap` works. -/
theorem grown_eq_ok {t : TypeTable}
    (h : ¬ (t.typetable.length ≤ t.nextarg ∧ intMax < t.typetable.length * 2)) :
    ∃ g, grown pageSize mapOk t = .ok g ∧ g.nextarg = t.nextarg ∧ g.tablemax = t.tablemax ∧
      g.typetable.length =
        if t.typetable.length ≤ t.nextarg ∧ mapOk t.mmapCalls = true then
          max (t.typetable.length * 2) pageSize
        else t.typetable.length := by
  unfold grown growTypeTable
  by_cases hle : t.typetable.length ≤ t.nextarg
  · have hfit : ¬ intMax < t.typetable.length * 2 := fun hover ↦ h ⟨hle, hover⟩
    by_cases hmap : mapOk t.mmapCalls = true
    · simp only [hle, hfit, hmap, and_self, if_true, if_false]
      refine ⟨_, rfl, rfl, rfl, ?_⟩
      simp only [List.length_append, List.length_replicate]
      omega
    · simp only [hle, hfit, hmap, and_false, if_true, if_false]
      exact ⟨_, rfl, rfl, rfl, rfl⟩
  · simp only [hle, false_and, if_false]
    exact ⟨t, rfl, rfl, rfl, rfl⟩

theorem addType_eq (type : ArgType) {t g : TypeTable} (hg : grown pageSize mapOk t = .ok g)
    (hnext : g.nextarg = t.nextarg) (htablemax : g.tablemax = t.tablemax) :
    addType pageSize mapOk type t =
      if t.nextarg < g.typetable.length then
        .ok { g with
          typetable := g.typetable.set t.nextarg type
          tablemax := max t.tablemax t.nextarg
          nextarg := t.nextarg + 1 }
      else .error (.outOfBounds t.nextarg g.typetable.length) := by
  unfold addType
  rw [hg]
  by_cases hmax : t.tablemax < t.nextarg
  · simp [bind, Except.bind, hnext, htablemax, hmax, Nat.max_eq_right (Nat.le_of_lt hmax)]
  · simp [bind, Except.bind, hnext, htablemax, hmax, Nat.max_eq_left (Nat.le_of_not_lt hmax)]

/-- One `ADDTYPE` stores inside the table exactly when the doubled size fits in an `int` and the
index is below the size, or the `mmap` worked and the index is below the grown size. -/
theorem addType_ok_iff (type : ArgType) (t : TypeTable) :
    (∃ t', addType pageSize mapOk type t = .ok t') ↔
      ¬ (t.typetable.length ≤ t.nextarg ∧ intMax < t.typetable.length * 2) ∧
        (t.nextarg < t.typetable.length ∨
          (mapOk t.mmapCalls = true ∧ t.nextarg < max (t.typetable.length * 2) pageSize)) := by
  by_cases hover : t.typetable.length ≤ t.nextarg ∧ intMax < t.typetable.length * 2
  · have herr : addType pageSize mapOk type t = .error (.sizeOverflow t.typetable.length) := by
      unfold addType
      rw [grown_of_overflow hover.1 hover.2]
      rfl
    simp [herr, hover]
  · obtain ⟨g, hg, hnext, htablemax, hlen⟩ := @grown_eq_ok pageSize mapOk _ hover
    have hok : (∃ t', addType pageSize mapOk type t = .ok t') ↔ t.nextarg < g.typetable.length := by
      rw [addType_eq type hg hnext htablemax]
      split <;> rename_i hlt
      · exact iff_of_true ⟨_, rfl⟩ hlt
      · exact iff_of_false (fun ⟨_, h⟩ ↦ nomatch h) hlt
    rw [hok, hlen]
    simp only [hover, not_false_eq_true, true_and]
    by_cases hle : t.typetable.length ≤ t.nextarg
    · by_cases hmap : mapOk t.mmapCalls = true
      · simp only [hle, hmap, and_self, if_true, true_and]
        omega
      · simp [hle, hmap]
    · simp only [hle, false_and, if_false]
      omega

end AddType

/-! ## Safety while the indices stay below the page size -/

/-- What keeps every `ADDTYPE` inside the table while `mmap` works and the format names no index
from the page size on: `tablemax` is inside, the table has its 8 static entries, and `nextarg` is
at most the size or below the page size. -/
structure Safe (pageSize : ℕ) (t : TypeTable) : Prop where
  tablemax_lt : t.tablemax < t.typetable.length
  static_le : staticArgTblSize ≤ t.typetable.length
  nextarg_le : t.nextarg ≤ t.typetable.length ∨ t.nextarg < pageSize

/-- A result with no access outside the tables: a safe table, or a fault other than
`outOfBounds`. -/
def SafeResult (pageSize : ℕ) : Except ArgFault TypeTable → Prop
  | .ok t => Safe pageSize t
  | .error e => ∀ i s, e ≠ .outOfBounds i s

/-- Every number the format spells, read from any position, is below `bound`. -/
def NumbersBelow (bound : ℕ) (fmt : List Char) : Prop :=
  ∀ s, List.IsSuffix s fmt → digitsValue (s.takeWhile Char.isDigit) < bound

section Safety

variable {pageSize : ℕ} {mapOk : ℕ → Bool} {t : TypeTable}

theorem safe_initTable : Safe pageSize initTable := ⟨by decide, by decide, Or.inl (by decide)⟩

theorem Safe.withNextarg (h : Safe pageSize t) {n : ℕ} (hn : n < pageSize) :
    Safe pageSize { t with nextarg := n } :=
  ⟨h.tablemax_lt, h.static_le, Or.inr hn⟩

theorem Safe.addType (hmap : ∀ k, mapOk k = true) (h : Safe pageSize t) (type : ArgType) :
    (∃ size, PrintfArgs.addType pageSize mapOk type t = .error (.sizeOverflow size)) ∨
      ∃ t', PrintfArgs.addType pageSize mapOk type t = .ok t' ∧ Safe pageSize t' ∧
        t.typetable.length ≤ t'.typetable.length := by
  by_cases hover : t.typetable.length ≤ t.nextarg ∧ intMax < t.typetable.length * 2
  · refine .inl ⟨t.typetable.length, ?_⟩
    unfold PrintfArgs.addType
    rw [grown_of_overflow hover.1 hover.2]
    rfl
  obtain ⟨g, hg, hnext, htablemax, hlen⟩ := @grown_eq_ok pageSize mapOk _ hover
  have hstatic := h.static_le
  unfold staticArgTblSize at hstatic
  simp only [hmap, and_true] at hlen
  -- the grown table holds `nextarg`: it was inside, or at most the old size, or below a page
  have hin : t.nextarg < g.typetable.length := by
    rw [hlen]
    split
    · rcases h.nextarg_le with hle | hlt <;> omega
    · omega
  have hge : t.typetable.length ≤ g.typetable.length := by
    rw [hlen]
    split <;> omega
  rw [addType_eq type hg hnext htablemax, if_pos hin]
  refine .inr ⟨_, rfl, ⟨?_, ?_, Or.inl ?_⟩, ?_⟩
  · have := h.tablemax_lt
    simp only [List.length_set]
    omega
  · simp only [List.length_set]
    unfold staticArgTblSize
    omega
  · simp only [List.length_set]
    omega
  · simpa using hge

theorem NumbersBelow.suffix {bound : ℕ} {fmt s : List Char} (h : NumbersBelow bound fmt)
    (hs : List.IsSuffix s fmt) : NumbersBelow bound s :=
  fun u hu ↦ h u (hu.trans hs)

theorem NumbersBelow.readNumber {bound : ℕ} {fmt : List Char} (h : NumbersBelow bound fmt)
    (hbound : bound ≤ intMax + 1) :
    PrintfArgs.readNumber (fmt.takeWhile Char.isDigit) =
        .ok (digitsValue (fmt.takeWhile Char.isDigit)) ∧
      digitsValue (fmt.takeWhile Char.isDigit) < bound := by
  have hlt := h fmt (List.suffix_refl fmt)
  exact ⟨readNumber_eq (by omega), hlt⟩

theorem asterRest_suffix (fmt : List Char) : List.IsSuffix (asterRest fmt) fmt := by
  unfold asterRest
  split
  · next cp h =>
    have hs := List.dropWhile_suffix Char.isDigit (l := fmt)
    rw [h] at hs
    exact (List.suffix_cons _ _).trans hs
  · exact List.suffix_refl fmt

theorem Safe.addAster (hmap : ∀ k, mapOk k = true) (hpage : pageSize ≤ intMax + 1)
    (h : Safe pageSize t) {fmt : List Char} (hfmt : NumbersBelow pageSize fmt) :
    (∃ size, PrintfArgs.addAster pageSize mapOk fmt t = .error (.sizeOverflow size)) ∨
      ∃ t', PrintfArgs.addAster pageSize mapOk fmt t = .ok t' ∧ Safe pageSize t' := by
  obtain ⟨hread, hlt⟩ := hfmt.readNumber hpage
  unfold PrintfArgs.addAster
  rw [hread]
  split
  · -- `*n$`: argument `n`, then `nextarg` back
    rcases (h.withNextarg hlt).addType hmap .int with ⟨size, herr⟩ | ⟨t', ht', hsafe, hlen⟩
    · refine .inl ⟨size, ?_⟩
      dsimp only [bind, Except.bind]
      rw [herr]
    refine .inr ⟨{ t' with nextarg := t.nextarg }, ?_, ⟨hsafe.tablemax_lt, hsafe.static_le, ?_⟩⟩
    · dsimp only [bind, Except.bind]
      rw [ht']
      rfl
    · rcases h.nextarg_le with hle | hlt'
      · exact Or.inl (Nat.le_trans hle hlen)
      · exact Or.inr hlt'
  · rcases h.addType hmap .int with ⟨size, herr⟩ | ⟨t', ht', hsafe, -⟩
    · exact .inl ⟨size, herr⟩
    · exact .inr ⟨t', ht', hsafe⟩

/-- A step that stops on the size overflow or leaves a safe table, and then a scan that keeps
every safe table safe, has a safe result. -/
theorem SafeResult.bind {r : Except ArgFault TypeTable} {k : TypeTable → Except ArgFault TypeTable}
    (hr : (∃ size, r = .error (.sizeOverflow size)) ∨ ∃ t', r = .ok t' ∧ Safe pageSize t')
    (hk : ∀ t', Safe pageSize t' → SafeResult pageSize (k t')) : SafeResult pageSize (r >>= k) := by
  rcases hr with ⟨size, rfl⟩ | ⟨t', rfl, hsafe⟩
  · exact fun _ _ ↦ nofun
  · exact hk t' hsafe

end Safety

theorem wFast_suffix (fmt : List Char) : List.IsSuffix (wFast fmt).2 fmt := by
  unfold wFast
  split
  · exact List.suffix_cons _ _
  · exact List.suffix_refl _

theorem isDigit_of_nonzero_digit {ch : Char} (h : '1' ≤ ch ∧ ch ≤ '9') : ch.isDigit = true := by
  obtain ⟨h1, h9⟩ := h
  simp only [Char.isDigit, Bool.and_eq_true, decide_eq_true_eq]
  exact ⟨Char.le_trans (by decide) h1, h9⟩

section Scan

variable {pageSize : ℕ} {mapOk : ℕ → Bool} (lp64 : Bool)

/-- Every step of the scan keeps the table safe while `mmap` works and the numbers of the format
stay below the page size. -/
theorem safeResult_findArgs (hmap : ∀ k, mapOk k = true) (hpage : pageSize ≤ intMax + 1)
    (phase : Phase) (fmt : List Char) (t : TypeTable) :
    Safe pageSize t → NumbersBelow pageSize fmt →
      SafeResult pageSize (findArgs pageSize mapOk lp64 phase fmt t) := by
  fun_induction findArgs pageSize mapOk lp64 phase fmt t with
  | case1 t => exact fun ht _ ↦ ht
  | case2 fmt t => exact fun ht _ ↦ ht
  | case3 fmt t _ ih => exact fun ht hfmt ↦ ih ht (hfmt.suffix (List.suffix_cons _ _))
  | case4 c fmt t _ _ ih => exact fun ht hfmt ↦ ih ht (hfmt.suffix (List.suffix_cons _ _))
  | case5 flags t => exact fun ht _ ↦ ht
  | case6 flags fmt t ih =>
    intro ht hfmt
    have hrest := hfmt.suffix (List.suffix_cons _ _)
    exact SafeResult.bind (ht.addAster hmap hpage hrest)
      fun t' hsafe ↦ ih t' hsafe (hrest.suffix (asterRest_suffix fmt))
  | case7 flags t fmt' ih =>
    intro ht hfmt
    have hrest := hfmt.suffix ((List.suffix_cons _ _).trans (List.suffix_cons _ _))
    exact SafeResult.bind (ht.addAster hmap hpage hrest)
      fun t' hsafe ↦ ih t' hsafe (hrest.suffix (asterRest_suffix fmt'))
  | case8 flags fmt t _ ih =>
    exact fun ht hfmt ↦ ih ht (hfmt.suffix ((List.dropWhile_suffix _).trans (List.suffix_cons _ _)))
  | case9 flags t fmt' ih | case11 flags t fmt' ih =>
    exact fun ht hfmt ↦ ih ht (hfmt.suffix ((List.suffix_cons _ _).trans (List.suffix_cons _ _)))
  | case10 flags fmt t _ ih | case12 flags fmt t _ ih =>
    exact fun ht hfmt ↦ ih ht (hfmt.suffix (List.suffix_cons _ _))
  | case13 flags fmt t ih =>
    intro ht hfmt
    have hrest := hfmt.suffix ((wFast_suffix fmt).trans (List.suffix_cons _ _))
    obtain ⟨hread, -⟩ := hrest.readNumber hpage
    rw [hread]
    exact ih _ ht (hrest.suffix (List.dropWhile_suffix _))
  | case14 flags fmt t => exact fun _ _ i s ↦ by simp
  | case15 flags fmt t => exact fun ht _ ↦ ht
  | case16 flags ch fmt t hdigit _ _ _ _ _ _ _ ih2 ih1 =>
    intro ht hfmt
    rw [if_pos hdigit]
    obtain ⟨hread, hlt⟩ := hfmt.readNumber hpage
    rw [List.takeWhile_cons_of_pos (isDigit_of_nonzero_digit hdigit)] at hread hlt
    rw [hread]
    have hafter := hfmt.suffix ((List.dropWhile_suffix Char.isDigit).trans (List.suffix_cons _ _))
    split
    · -- `n$`: the number is the next argument
      next fmt' hdollar =>
      refine ih2 _ fmt' hdollar (ht.withNextarg hlt) (hafter.suffix ?_)
      rw [hdollar]
      exact List.suffix_cons _ _
    · exact ih1 ht hafter
  | case17 flags ch fmt t hdigit hskip _ _ _ _ _ _ _ ih =>
    intro ht hfmt
    rw [if_neg hdigit, if_pos hskip]
    exact ih ht (hfmt.suffix (List.suffix_cons _ _))
  | case18 flags ch fmt t hdigit hskip flags' hlength _ _ _ _ _ _ _ ih =>
    intro ht hfmt
    rw [if_neg hdigit, if_neg hskip, hlength]
    exact ih ht (hfmt.suffix (List.suffix_cons _ _))
  | case19 flags ch fmt t hdigit hskip hlength type hconv _ _ _ _ _ _ _ ih =>
    intro ht hfmt
    rw [if_neg hdigit, if_neg hskip, hlength, hconv]
    -- the table's growth in length is not needed past this call
    exact SafeResult.bind
      ((ht.addType hmap type).imp_right fun ⟨t', ht', hsafe, _⟩ ↦ ⟨t', ht', hsafe⟩)
      fun t' hsafe ↦ ih t' hsafe (hfmt.suffix (List.suffix_cons _ _))
  | case20 flags ch fmt t hdigit hskip hlength hconv _ _ _ _ _ _ _ ih =>
    intro ht hfmt
    rw [if_neg hdigit, if_neg hskip, hlength, hconv]
    exact ih ht (hfmt.suffix (List.suffix_cons _ _))

/-- When `mmap` works and every number the format spells is below the page size, no access leaves
the type table or the argument table. -/
theorem findArguments_safe (hmap : ∀ k, mapOk k = true) (hpage : pageSize ≤ intMax + 1)
    (fmt : List Char) (hfmt : NumbersBelow pageSize fmt) (i s : ℕ) :
    findArguments pageSize mapOk lp64 fmt ≠ .error (.outOfBounds i s) := by
  have hscan := safeResult_findArgs lp64 hmap hpage .text fmt initTable safe_initTable hfmt
  unfold findArguments
  cases hres : findArgs pageSize mapOk lp64 .text fmt initTable with
  | error e =>
    rw [hres] at hscan
    intro h
    exact hscan i s (by simpa [bind, Except.bind] using h)
  | ok t =>
    rw [hres] at hscan
    simp [bind, Except.bind, hmap, hscan.tablemax_lt, pure, Except.pure]

theorem findArgs_dollar {flags : Flags} {ch : Char} (hdigit : '1' ≤ ch ∧ ch ≤ '9')
    {fmt fmt' : List Char} (hdollar : fmt.dropWhile Char.isDigit = '$' :: fmt') {n : ℕ}
    (hread : readNumber (ch :: fmt.takeWhile Char.isDigit) = .ok n) (t : TypeTable) :
    findArgs pageSize mapOk lp64 (.spec flags) (ch :: fmt) t =
      findArgs pageSize mapOk lp64 (.spec flags) fmt' { t with nextarg := n } := by
  have hne : ∀ c : Char, ¬('1' ≤ c ∧ c ≤ '9') → ch ≠ c := by
    rintro c hc rfl
    exact hc hdigit
  rw [findArgs.eq_14 _ _ _ _ _ _ _ (hne '*' (by decide)) (hne '.' (by decide)) (hne 'h' (by decide))
    (hne 'l' (by decide)) (hne 'w' (by decide)) (hne 'n' (by decide)) (hne '\x00' (by decide)),
    if_pos hdigit, hread]
  dsimp only [bind, Except.bind]
  split
  · next fmt'' h =>
    rw [hdollar, List.cons.injEq] at h
    rw [h.2]
  · next hnot =>
    exact absurd hdollar (hnot fmt')

end Scan

theorem toDigits_eq_cons {n : ℕ} (hn : 0 < n) :
    ∃ c cs, Nat.toDigits 10 n = c :: cs ∧ '1' ≤ c ∧ c ≤ '9' := by
  induction n using Nat.strong_induction_on with
  | _ n ih =>
    rw [Nat.toDigits_eq_if (by decide)]
    split
    · next hlt =>
      refine ⟨_, [], rfl, ?_⟩
      interval_cases n <;> decide
    · next hge =>
      obtain ⟨c, cs, hcs, hc⟩ := ih (n / 10) (by omega) (by omega)
      exact ⟨c, cs ++ [Nat.digitChar (n % 10)], by rw [hcs, List.cons_append], hc⟩

/-- A positive number printed in a format before text that does not start with a digit: its first
digit is `1` to `9`, the scan reads the number back, and it stops where the text starts. -/
theorem toDigits_scan {n : ℕ} (hn : 0 < n) (hmax : n ≤ intMax) {rest : List Char}
    (hrest : NotDigitHead rest) :
    ∃ c cs, Nat.toDigits 10 n = c :: cs ∧ ('1' ≤ c ∧ c ≤ '9') ∧
      readNumber (c :: (cs ++ rest).takeWhile Char.isDigit) = .ok n ∧
      (cs ++ rest).dropWhile Char.isDigit = rest := by
  obtain ⟨c, cs, hcs, hc⟩ := toDigits_eq_cons hn
  have hdigit := isDigit_of_nonzero_digit hc
  refine ⟨c, cs, hcs, hc, ?_, ?_⟩
  · have htake := takeWhile_toDigits_append (n := n) hrest
    rw [hcs, List.cons_append, List.takeWhile_cons_of_pos hdigit] at htake
    rw [htake, ← hcs, readNumber_eq (by rw [digitsValue_toDigits]; exact hmax),
      digitsValue_toDigits]
  · have hdrop := dropWhile_toDigits_append (n := n) hrest
    rwa [hcs, List.cons_append, List.dropWhile_cons_of_pos hdigit] at hdrop

section Overflow

variable {pageSize : ℕ} {mapOk : ℕ → Bool} (lp64 : Bool)

/-- `%n$d` stores argument `n`'s type with `nextarg = n`, from the table `__find_arguments`
starts with. -/
theorem findArgs_dollar_d {n : ℕ} (hn : 0 < n) (hmax : n ≤ intMax) :
    findArgs pageSize mapOk lp64 .text ('%' :: (Nat.toDigits 10 n ++ ['$', 'd'])) initTable =
      addType pageSize mapOk .int { initTable with nextarg := n } >>= fun t ↦ .ok t := by
  have hrest : NotDigitHead ['$', 'd'] := fun d hd ↦ by
    simp only [List.head?_cons, Option.mem_def, Option.some.injEq] at hd
    subst hd
    decide
  obtain ⟨c, cs, hcs, hc, hread, hdrop⟩ := toDigits_scan hn hmax hrest
  rw [findArgs.eq_2, if_neg (by decide), if_pos rfl, hcs, List.cons_append,
    findArgs_dollar lp64 hc hdrop hread]
  simp [findArgs, skippedFlag, lengthFlag, convType, sargType]

/-- `%n$d` with `n` from `max(16, page size)` up to `INT_MAX` makes `ADDTYPE` store at index `n` in
a table of `max(16, page size)` entries; when that `mmap` fails, every `n` from 8 on stores outside
the 8 entries on the stack. -/
theorem findArguments_outOfBounds (n : ℕ) (hmax : n ≤ intMax) :
    (max (staticArgTblSize * 2) pageSize ≤ n → mapOk 0 = true →
      findArguments pageSize mapOk lp64 ('%' :: (Nat.toDigits 10 n ++ ['$', 'd'])) =
        .error (.outOfBounds n (max (staticArgTblSize * 2) pageSize))) ∧
    (staticArgTblSize ≤ n → mapOk 0 = false →
      findArguments pageSize mapOk lp64 ('%' :: (Nat.toDigits 10 n ++ ['$', 'd'])) =
        .error (.outOfBounds n staticArgTblSize)) := by
  have hsize :
      ({ initTable with nextarg := n } : TypeTable).typetable.length = staticArgTblSize := by
    simp [initTable]
  have h8 : staticArgTblSize = 8 := rfl
  have hcalls : initTable.mmapCalls = 0 := rfl
  -- the 8 entries on the stack double within an `int`
  obtain ⟨g, hg, hnext, htablemax, hlen⟩ := @grown_eq_ok pageSize mapOk
    { initTable with nextarg := n } (by rw [hsize, h8]; exact fun h ↦ absurd h.2 (by decide))
  rw [hsize] at hlen
  -- the one `ADDTYPE` of the format, at index `n` of the grown table
  have hstore : ∀ size, g.typetable.length = size →
      size ≤ n → findArguments pageSize mapOk lp64 ('%' :: (Nat.toDigits 10 n ++ ['$', 'd'])) =
        .error (.outOfBounds n size) := by
    intro size hgrown hle
    have hn0 : 0 < n := by
      rw [hgrown] at hlen
      split at hlen <;> omega
    unfold findArguments
    rw [findArgs_dollar_d lp64 hn0 hmax, addType_eq .int hg hnext htablemax, hgrown,
      if_neg (by simpa using hle)]
    rfl
  constructor
  · intro hn hmap
    exact hstore _ (by simpa [hcalls, hmap, h8, show 8 ≤ n by omega] using hlen) hn
  · intro hn hmap
    exact hstore _ (by simpa [hcalls, hmap] using hlen) hn

/-- With 4096-byte pages, `%5000$d` stores at index 5000 of a 4096-entry table. -/
theorem findArguments_outOfBounds_5000 :
    max (staticArgTblSize * 2) 4096 ≤ 5000 ∧ (fun _ ↦ true : ℕ → Bool) 0 = true ∧
      findArguments 4096 (fun _ ↦ true) true ('%' :: (Nat.toDigits 10 5000 ++ ['$', 'd'])) =
        .error (.outOfBounds 5000 4096) :=
  ⟨by decide, rfl, (findArguments_outOfBounds true 5000 (by decide)).1 (by decide) rfl⟩

end Overflow


end Bionic.Stdio.PrintfArgs
