import Bionic.Stdlib.Strtol

/-!
# The partition passwd and group files: `grp_pwd_file.cpp`

`PasswdFile` and `GroupFile` answer `FindById` and `FindByName` from a mapped file of lines, each
ended by `'\n'`, of fields separated by `':'`. `MmapFile::Find` walks the lines with `ParseLine`,
which writes into the `fields` array of one `PasswdLine` or `GroupLine` the start of each field of
the line, at most `kNumFields` of them, skips the lines without the partition's required prefix
(on Android), and stops at the first line the predicate accepts; `ToPasswdState` and
`ToGroupState` then build the entry from the array.

The mapping is the file's bytes from position 0 (`start_`) to its last byte (`end_`), which
`DoMmap` requires to be `'\n'`; a read past `end_` gives 0, the rest of the mapped page
(`byteAt`). The loops of `ParseLine` carry a bound on their rounds, `end_ - begin`, which is
exactly how often `position < end` can hold. `FieldToUid` is the project's `strtoul` from the
field's first byte (`Stdlib.Strtol`).

`ParseLine` writes the starts of the line's own fields and leaves every other entry as it was
(`parseLine_eq`): an entry past the line's last field still points into an earlier line
(`parseLine_fields_of_length_le`). `Find` keeps one array for all the lines, so a line with too
few fields is matched and read through the fields of the lines before it
(`findByName_reads_earlier_line`).
-/

set_option autoImplicit false
set_option relaxedAutoImplicit false

namespace Bionic.GrpPwd.File

open Bionic.Stdlib.Strtol

/-- `':'`. -/
def colon : ℕ := 0x3a

/-- `'\n'`. -/
def newline : ℕ := 0x0a

/-- `kGrpPwdBufferSize`: the size of every name, directory and shell buffer. -/
def kGrpPwdBufferSize : ℕ := 32

/-- The byte at position `p` of the mapping of `file`; past its last byte lies the zeroed rest of
the page. -/
def byteAt (file : List ℕ) (p : ℕ) : ℕ := file.getD p 0

/-! ### Fields -/

/-- `CopyFieldToString(dest, source, max)`: the string it leaves in `dest`, the bytes up to the next
`':'` or `'\n'`, at most `max - 1` of them. -/
def copyFieldToString (file : List ℕ) (source : ℕ) : ℕ → List ℕ
  | max + 2 =>
    if byteAt file source ≠ colon ∧ byteAt file source ≠ newline then
      byteAt file source :: copyFieldToString file (source + 1) (max + 1)
    else []
  | _ => []

/-- `FieldToUid(field, &uid)`: `strtoul(field, &end, 0)` over the bytes from the field on, accepted
when it sets no `errno`, reads a digit and stops at a `':'`; the value as a `uid_t`. -/
def fieldToUid (lp64 : Bool) (file : List ℕ) : Option ℕ → Option ℕ
  | none => none
  | some field =>
    let r := strtoul lp64 ((file.drop field).map fun b : ℕ ↦ (b : ℤ)) 0
    if r.errno.isSome ∨ r.endIdx = 0 ∨ byteAt file (field + r.endIdx) ≠ colon then none
    else some (r.value % 2 ^ 32).toNat

/-! ### `ParseLine` -/

section ParseLine

variable (file : List ℕ) (endPos numFields : ℕ)

/-- The second loop of `ParseLine`: `while (position < end && *position != '\n') position++`. -/
def skipLine : ℕ → ℕ → ℕ
  | 0, position => position
  | rounds + 1, position =>
    if position < endPos ∧ byteAt file position ≠ newline then skipLine rounds (position + 1)
    else position

/-- The first loop of `ParseLine`, with `written` fields written: the position one past the end of
the line, and the fields array. -/
def parseFields : ℕ → ℕ → ℕ → (ℕ → Option ℕ) → ℕ × (ℕ → Option ℕ)
  | 0, position, _, fields => (position + 1, fields)
  | rounds + 1, position, written, fields =>
    if position < endPos ∧ written < numFields then
      if byteAt file position = newline then (position + 1, fields)
      else if byteAt file position = colon then
        parseFields rounds (position + 1) (written + 1)
          (Function.update fields written (some (position + 1)))
      else parseFields rounds (position + 1) written fields
    else (skipLine file endPos (rounds + 1) position + 1, fields)

/-- `ParseLine(begin, end, fields, num_fields)`. -/
def parseLine (begin : ℕ) (fields : ℕ → Option ℕ) : ℕ × (ℕ → Option ℕ) :=
  parseFields file endPos numFields (endPos - begin) begin 1
    (Function.update fields 0 (some begin))

/-- The starts of the fields of a line after its first: the position after each `':'` from
`position` on, before the line's `'\n'` or `end_`. -/
def colonsFrom : ℕ → ℕ → List ℕ
  | 0, _ => []
  | rounds + 1, position =>
    if position < endPos ∧ byteAt file position ≠ newline then
      if byteAt file position = colon then (position + 1) :: colonsFrom rounds (position + 1)
      else colonsFrom rounds (position + 1)
    else []

/-- The starts of the fields of the line from `begin`. -/
def lineFields (begin : ℕ) : List ℕ := begin :: colonsFrom file endPos (endPos - begin) begin

end ParseLine

/-- `fields` with `ps` written from entry `written` on. -/
def writeFrom (fields : ℕ → Option ℕ) (written : ℕ) (ps : List ℕ) : ℕ → Option ℕ :=
  fun i ↦ if written ≤ i ∧ i < written + ps.length then ps[i - written]? else fields i

@[simp] theorem writeFrom_nil (fields : ℕ → Option ℕ) (written : ℕ) :
    writeFrom fields written [] = fields := by
  funext i
  simp [writeFrom]

theorem writeFrom_cons (fields : ℕ → Option ℕ) (written p : ℕ) (ps : List ℕ) :
    writeFrom fields written (p :: ps) =
      writeFrom (Function.update fields written (some p)) (written + 1) ps := by
  funext i
  unfold writeFrom
  by_cases hi : i = written
  · subst hi
    simp
  · by_cases hlo : written + 1 ≤ i
    · have hsub : i - written = (i - (written + 1)) + 1 := by omega
      simp only [List.length_cons, hsub, List.getElem?_cons_succ, Function.update_of_ne hi]
      congr 1
      apply propext
      omega
    · rw [if_neg (by omega), if_neg (by omega), Function.update_of_ne hi]

section ParseLine

variable {file : List ℕ} {endPos numFields : ℕ}

/-- The first loop writes, from entry `written`, the starts of the fields after `position`, as many
as there is room for, and returns one past the line's end. -/
theorem parseFields_eq (rounds position written : ℕ) (fields : ℕ → Option ℕ)
    (hwritten : written ≤ numFields) :
    parseFields file endPos numFields rounds position written fields =
      (skipLine file endPos rounds position + 1,
        writeFrom fields written
          ((colonsFrom file endPos rounds position).take (numFields - written))) := by
  induction rounds generalizing position written fields with
  | zero => simp [parseFields, skipLine, colonsFrom]
  | succ rounds ih =>
    by_cases hloop : position < endPos ∧ written < numFields
    · have hskip : ∀ b, byteAt file position = b → b ≠ newline →
          skipLine file endPos (rounds + 1) position = skipLine file endPos rounds (position + 1) :=
        fun b hb hne ↦ by simp [skipLine, hloop.1, hb, hne]
      by_cases hnl : byteAt file position = newline
      · simp [parseFields, skipLine, colonsFrom, hloop, hnl]
      · by_cases hcolon : byteAt file position = colon
        -- a `':'`: the next field starts after it
        · have hcol : colon ≠ newline := by decide
          rw [parseFields, if_pos hloop, if_neg hnl, if_pos hcolon, ih _ _ _ hloop.2,
            hskip colon hcolon hcol, colonsFrom, if_pos ⟨hloop.1, hnl⟩, if_pos hcolon,
            show numFields - written = (numFields - (written + 1)) + 1 by omega, List.take_succ_cons,
            writeFrom_cons]
        · rw [parseFields, if_pos hloop, if_neg hnl, if_neg hcolon, ih _ _ _ hwritten,
            hskip _ rfl hnl, colonsFrom, if_pos ⟨hloop.1, hnl⟩, if_neg hcolon]
    · -- past `end` or with every field written, nothing more is written
      rw [parseFields, if_neg hloop]
      by_cases hend : position < endPos
      · have hfull : numFields - written = 0 := by omega
        simp [hfull]
      · simp [colonsFrom, hend]

/-- `ParseLine` writes the starts of the line's fields into the first entries, as many as
`num_fields`, and leaves every other entry as it was. -/
theorem parseLine_eq (begin : ℕ) (fields : ℕ → Option ℕ) (hnum : 0 < numFields) :
    parseLine file endPos numFields begin fields =
      (skipLine file endPos (endPos - begin) begin + 1,
        writeFrom fields 0 ((lineFields file endPos begin).take numFields)) := by
  obtain ⟨n, rfl⟩ : ∃ n, numFields = n + 1 := ⟨numFields - 1, by omega⟩
  rw [parseLine, parseFields_eq _ _ _ _ (by omega), lineFields, List.take_succ_cons,
    writeFrom_cons, Nat.add_sub_cancel]

theorem parseLine_fields_of_length_le (begin : ℕ) (fields : ℕ → Option ℕ) (hnum : 0 < numFields)
    {i : ℕ} (hi : (lineFields file endPos begin).length ≤ i) :
    (parseLine file endPos numFields begin fields).2 i = fields i := by
  rw [parseLine_eq begin fields hnum]
  simp only [writeFrom]
  rw [if_neg]
  rw [List.length_take]
  omega

/-- An entry below `num_fields` and the line's field count is the start of that field of the
line. -/
theorem parseLine_fields_of_lt (begin : ℕ) (fields : ℕ → Option ℕ) (hnum : 0 < numFields)
    {i : ℕ} (hi : i < numFields) (hlen : i < (lineFields file endPos begin).length) :
    (parseLine file endPos numFields begin fields).2 i = (lineFields file endPos begin)[i]? := by
  rw [parseLine_eq begin fields hnum]
  simp only [writeFrom]
  rw [if_pos (by simp; omega), Nat.sub_zero, List.getElem?_take_of_lt hi]

theorem colonsFrom_le (rounds position : ℕ) :
    ∀ p ∈ colonsFrom file endPos rounds position, p ≤ endPos := by
  induction rounds generalizing position with
  | zero => simp [colonsFrom]
  | succ rounds ih =>
    intro p hp
    unfold colonsFrom at hp
    by_cases hin : position < endPos ∧ byteAt file position ≠ newline
    · rw [if_pos hin] at hp
      by_cases hcolon : byteAt file position = colon
      · rw [if_pos hcolon, List.mem_cons] at hp
        rcases hp with rfl | hp
        · omega
        · exact ih _ p hp
      · rw [if_neg hcolon] at hp
        exact ih _ p hp
    · rw [if_neg hin] at hp
      cases hp

theorem parseLine_fields_le {begin : ℕ} (hbegin : begin ≤ endPos) {fields : ℕ → Option ℕ}
    (hnum : 0 < numFields) (hfields : ∀ i p, fields i = some p → p ≤ endPos) :
    ∀ i p, (parseLine file endPos numFields begin fields).2 i = some p → p ≤ endPos := by
  intro i p hp
  rw [parseLine_eq begin fields hnum] at hp
  simp only [writeFrom] at hp
  split_ifs at hp with hi
  · have hmem : p ∈ lineFields file endPos begin :=
      List.mem_of_mem_take (List.mem_of_getElem? hp)
    rw [lineFields, List.mem_cons] at hmem
    rcases hmem with rfl | hmem
    · exact hbegin
    · exact colonsFrom_le _ _ p hmem
  · exact hfields i p hp

end ParseLine

/-! ### `MmapFile::Find` -/

/-- The Treble check of `Find`: `strncmp(line->fields[0], required_prefix_,
strlen(required_prefix_)) == 0`, the line's first bytes are the prefix. -/
def hasPrefix (file : List ℕ) (p : ℕ) : List ℕ → Bool
  | [] => true
  | c :: rest => byteAt file p == c && hasPrefix file (p + 1) rest

/-- The loop of `MmapFile::Find(line, predicate)` from `line_beginning`, with the line's fields array
carried from line to line: the array when the predicate accepts a line. `required_prefix_` is
`none` when it is `nullptr` or off Android; `rounds` bounds the lines. -/
def findFrom (file : List ℕ) (endPos numFields : ℕ) (requiredPrefix : Option (List ℕ))
    (predicate : (ℕ → Option ℕ) → Bool) : ℕ → ℕ → (ℕ → Option ℕ) → Option (ℕ → Option ℕ)
  | 0, _, _ => none
  | rounds + 1, lineBeginning, fields =>
    if lineBeginning < endPos then
      let parsed := parseLine file endPos numFields lineBeginning fields
      -- `fields[0]` is `line_beginning`
      if requiredPrefix.all (hasPrefix file lineBeginning) && predicate parsed.2 then some parsed.2
      else findFrom file endPos numFields requiredPrefix predicate rounds parsed.1 parsed.2
    else none

/-- `MmapFile::Find`: `GetFile` maps the file only when its last byte is `'\n'`, and the search
starts at `start_` with the array of a new `PasswdLine` or `GroupLine`, all `nullptr`. -/
def find (file : List ℕ) (numFields : ℕ) (requiredPrefix : Option (List ℕ))
    (predicate : (ℕ → Option ℕ) → Bool) : Option (ℕ → Option ℕ) :=
  if file.getLast? = some newline then
    findFrom file (file.length - 1) numFields requiredPrefix predicate file.length 0 fun _ ↦ none
  else none

/-- Every entry of the array the loop returns points into the mapping, by induction on the lines:
`ParseLine` writes only positions up to `end_`. -/
theorem findFrom_fields_le {file : List ℕ} {endPos numFields : ℕ} (hnum : 0 < numFields)
    {requiredPrefix : Option (List ℕ)} {predicate : (ℕ → Option ℕ) → Bool} (rounds : ℕ) :
    ∀ (lineBeginning : ℕ) (fields found : ℕ → Option ℕ),
      (∀ i p, fields i = some p → p ≤ endPos) →
      findFrom file endPos numFields requiredPrefix predicate rounds lineBeginning fields =
        some found →
      ∀ i p, found i = some p → p ≤ endPos := by
  induction rounds with
  | zero => simp [findFrom]
  | succ rounds ih =>
    intro lineBeginning fields found hfields hfind
    unfold findFrom at hfind
    by_cases hline : lineBeginning < endPos
    · rw [if_pos hline] at hfind
      have hparsed : ∀ i p, (parseLine file endPos numFields lineBeginning fields).2 i = some p →
          p ≤ endPos := parseLine_fields_le (Nat.le_of_lt hline) hnum hfields
      dsimp only at hfind
      split at hfind
      · obtain rfl := Option.some.inj hfind
        exact hparsed
      · exact ih _ _ _ hparsed hfind
    · rw [if_neg hline] at hfind
      cases hfind

theorem find_fields_lt {file : List ℕ} {numFields : ℕ} (hnum : 0 < numFields)
    {requiredPrefix : Option (List ℕ)} {predicate : (ℕ → Option ℕ) → Bool}
    {found : ℕ → Option ℕ} (hfind : find file numFields requiredPrefix predicate = some found) :
    ∀ i p, found i = some p → p < file.length := by
  unfold find at hfind
  split_ifs at hfind with hlast
  have hne : file ≠ [] := by
    rintro rfl
    cases hlast
  have hlen : 0 < file.length := List.length_pos_iff.mpr hne
  intro i p hp
  have := findFrom_fields_le hnum file.length 0 (fun _ ↦ none) found (by simp) hfind i p hp
  omega

/-- The predicate of `MmapFile::FindById(uid, line)`: field 2 is the uid. -/
def idMatches (lp64 : Bool) (file : List ℕ) (uid : ℕ) (fields : ℕ → Option ℕ) : Bool :=
  match fieldToUid lp64 file (fields 2) with
  | some lineId => lineId == uid
  | none => false

/-- The comparison loop of `MmapFile::FindByName(name, line)`, from `line_name` on. -/
def nameMatchesFrom (file : List ℕ) (lineName : ℕ) : List ℕ → Bool
  | [] => byteAt file lineName == colon
  | c :: rest =>
    if byteAt file lineName = newline ∨ byteAt file lineName = colon then false
    else byteAt file lineName == c && nameMatchesFrom file (lineName + 1) rest

/-- The predicate of `MmapFile::FindByName(name, line)`: field 0 is the name, ended by `':'`. -/
def nameMatches (file : List ℕ) (name : List ℕ) (fields : ℕ → Option ℕ) : Bool :=
  match fields 0 with
  | some lineName => nameMatchesFrom file lineName name
  | none => false

/-! ### The entries -/

/-- The fields of a `passwd` that `ToPasswdState` sets from the line; `pw_passwd` and `pw_gecos`
are `nullptr`. -/
structure Passwd where
  name : List ℕ
  uid : ℕ
  gid : ℕ
  dir : List ℕ
  shell : List ℕ
  deriving DecidableEq, Repr

/-- `PasswdLine::ToPasswdState`. -/
def toPasswdState (lp64 : Bool) (file : List ℕ) (fields : ℕ → Option ℕ) : Option Passwd := do
  let name ← fields 0
  let dir ← fields 5
  let shell ← fields 6
  let uid ← fieldToUid lp64 file (fields 2)
  let gid ← fieldToUid lp64 file (fields 3)
  pure ⟨copyFieldToString file name kGrpPwdBufferSize, uid, gid,
    copyFieldToString file dir kGrpPwdBufferSize, copyFieldToString file shell kGrpPwdBufferSize⟩

/-- The fields of a `group` that `ToGroupState` sets from the line; `gr_passwd` is `nullptr` and
`gr_mem` holds the name alone. -/
structure Group where
  name : List ℕ
  gid : ℕ
  deriving DecidableEq, Repr

/-- `GroupLine::ToGroupState`. -/
def toGroupState (lp64 : Bool) (file : List ℕ) (fields : ℕ → Option ℕ) : Option Group := do
  let name ← fields 0
  let gid ← fieldToUid lp64 file (fields 2)
  pure ⟨copyFieldToString file name kGrpPwdBufferSize, gid⟩

/-- `PasswdLine::kNumFields`. -/
def passwdNumFields : ℕ := 7

/-- `GroupLine::kNumFields`. -/
def groupNumFields : ℕ := 4

/-- `PasswdFile::FindById(id, passwd_state)`. -/
def passwdFindById (lp64 : Bool) (file : List ℕ) (requiredPrefix : Option (List ℕ)) (id : ℕ) :
    Option Passwd :=
  (find file passwdNumFields requiredPrefix (idMatches lp64 file id)).bind (toPasswdState lp64 file)

/-- `PasswdFile::FindByName(name, passwd_state)`. -/
def passwdFindByName (lp64 : Bool) (file : List ℕ) (requiredPrefix : Option (List ℕ))
    (name : List ℕ) : Option Passwd :=
  (find file passwdNumFields requiredPrefix (nameMatches file name)).bind (toPasswdState lp64 file)

/-- `GroupFile::FindById(id, group_state)`. -/
def groupFindById (lp64 : Bool) (file : List ℕ) (requiredPrefix : Option (List ℕ)) (id : ℕ) :
    Option Group :=
  (find file groupNumFields requiredPrefix (idMatches lp64 file id)).bind (toGroupState lp64 file)

/-- `GroupFile::FindByName(name, group_state)`. -/
def groupFindByName (lp64 : Bool) (file : List ℕ) (requiredPrefix : Option (List ℕ))
    (name : List ℕ) : Option Group :=
  (find file groupNumFields requiredPrefix (nameMatches file name)).bind (toGroupState lp64 file)

/-! ### Lines read through the fields of other lines -/

/-- The passwd file `a:x:5:5::/d:/s` `b:`, each line ended by `'\n'`. -/
def twoLineFile : List ℕ :=
  [0x61, 0x3a, 0x78, 0x3a, 0x35, 0x3a, 0x35, 0x3a, 0x3a, 0x2f, 0x64, 0x3a, 0x2f, 0x73, 0x0a,
    0x62, 0x3a, 0x0a]

/-- The group file `a:x:` `7:x:7:`, each line ended by `'\n'`. -/
def emptyGidFile : List ℕ :=
  [0x61, 0x3a, 0x78, 0x3a, 0x0a, 0x37, 0x3a, 0x78, 0x3a, 0x37, 0x3a, 0x0a]

theorem findByName_reads_earlier_line :
    lineFields twoLineFile (twoLineFile.length - 1) 15 = [15, 17] ∧
      passwdFindByName true twoLineFile none [0x62] =
        some ⟨[0x62], 5, 5, [0x2f, 0x64], [0x2f, 0x73]⟩ ∧
      lineFields emptyGidFile (emptyGidFile.length - 1) 0 = [0, 2, 4] ∧
      byteAt emptyGidFile 4 = newline ∧
      groupFindById true emptyGidFile none 7 = some ⟨[0x61], 7⟩ := by
  decide

end Bionic.GrpPwd.File
