import Mathlib.Logic.Function.Basic
import Mathlib.Data.List.Basic
import Bionic.Errno
import Mathlib.Algebra.Order.Ring.Nat

/-!
# `fmemopen`

`fmemopen` keeps in its cookie the buffer, its `capacity`, the logical `size` of the contents and
the `offset` of the next read or write; `funopen` installs `fmemopen_read`, `fmemopen_write` and
`fmemopen_seek` on the `FILE`.

The buffer is memory from `buf` on: the caller's object is `[0, capacity)`, and what lies past it
is the memory that follows. `size_t` and `fpos_t` are 64 bits wide, `int` 32.

A seek may leave the offset anywhere up to `capacity`, past `size`. `fmemopen_read` then computes
`size - offset` in `size_t` and wraps: it copies the whole request from past the logical end, and
past `capacity` (`fmemopen_past_end`). A read from an offset at most `size` copies only from
`[offset, size)` (`fmemopenRead_of_le_size`). `fmemopen_write` decides whether it needs room for a
trailing NUL from the last byte of the request, but adds the NUL after the last byte it kept: a
request that ends in a NUL and is cut to the room left stores its NUL at `buf[capacity]`, one past
the buffer (`fmemopen_past_end`). It stores nowhere else past the buffer, and with `fmemopen_seek`
keeps `size` and `offset` within `capacity` (`fmemopenWrite_bounds`, `fmemopenSeek_offset_le`).
-/

set_option autoImplicit false
set_option relaxedAutoImplicit false

namespace Bionic.Stdio.Fmemopen

/-! ### Integer conversions -/

/-- `static_cast<size_t>(n)` of an `int` or an `fpos_t`. -/
def toSize (n : ℤ) : ℕ := (n % 2 ^ 64).toNat

/-- `a - b` in `size_t`. -/
def subSize (a b : ℕ) : ℕ := (a % 2 ^ 64 + (2 ^ 64 - b % 2 ^ 64)) % 2 ^ 64

/-- A `size_t` converted to `int`: its low 32 bits, signed. -/
def toInt (x : ℕ) : ℤ :=
  if x % 2 ^ 32 < 2 ^ 31 then ((x % 2 ^ 32 : ℕ) : ℤ) else ((x % 2 ^ 32 : ℕ) : ℤ) - 2 ^ 32

/-- A `size_t` converted to `fpos_t`. -/
def toFpos (x : ℕ) : ℤ :=
  if x % 2 ^ 64 < 2 ^ 63 then ((x % 2 ^ 64 : ℕ) : ℤ) else ((x % 2 ^ 64 : ℕ) : ℤ) - 2 ^ 64

theorem subSize_of_le {a b : ℕ} (hab : b ≤ a) (ha : a < 2 ^ 64) : subSize a b = a - b := by
  unfold subSize
  rw [Nat.mod_eq_of_lt ha, Nat.mod_eq_of_lt (by omega : b < 2 ^ 64)]
  have : a + (2 ^ 64 - b) = a - b + 2 ^ 64 := by omega
  rw [this, Nat.add_mod_right, Nat.mod_eq_of_lt (by omega)]

theorem toInt_of_lt {x : ℕ} (hx : x < 2 ^ 31) : toInt x = x := by
  have : x % 2 ^ 32 = x := Nat.mod_eq_of_lt (by omega)
  simp only [toInt, this, if_pos hx]

theorem toSize_of_nonneg {n : ℤ} (h0 : 0 ≤ n) (hn : n < 2 ^ 64) : toSize n = n.toNat := by
  rw [toSize, Int.emod_eq_of_lt h0 hn]

/-! ### The cookie -/

/-- `fmemopen_cookie`; `allocation` only records what `fmemopen_close` frees. -/
structure Cookie where
  /-- The memory from `buf` on. -/
  buf : ℕ → UInt8
  capacity : ℕ
  size : ℕ
  offset : ℕ
  append : Bool

/-- `memmove(ck->buf + offset, data, n)`. -/
def copyIn (buf : ℕ → UInt8) (offset : ℕ) (data : List UInt8) (n : ℕ) : ℕ → UInt8 :=
  fun i ↦ if offset ≤ i ∧ i < offset + n then data.getD (i - offset) 0 else buf i

theorem copyIn_ne {buf : ℕ → UInt8} {offset : ℕ} {data : List UInt8} {n i : ℕ}
    (h : copyIn buf offset data n i ≠ buf i) : offset ≤ i ∧ i < offset + n := by
  unfold copyIn at h
  split_ifs at h with hi
  · exact hi
  · exact absurd rfl h

/-- What a cookie function returns: its value, `errno` where it sets it, and the cookie after. -/
structure Outcome where
  ret : ℤ
  errno : Option ℤ
  cookie : Cookie

/-- `fmemopen_read(cookie, buf, n)`, with the bytes it copies out. -/
def fmemopenRead (ck : Cookie) (n : ℤ) : Outcome × List UInt8 :=
  let n := if toSize n > subSize ck.size ck.offset then toInt (subSize ck.size ck.offset) else n
  if 0 < n then
    (⟨n, none, { ck with offset := (ck.offset + toSize n) % 2 ^ 64 }⟩,
      (List.range n.toNat).map fun i ↦ ck.buf (ck.offset + i))
  else (⟨n, none, ck⟩, [])

/-- `fmemopen_write(cookie, buf, n)` of the bytes `data`. -/
def fmemopenWrite (ck : Cookie) (data : List UInt8) (n : ℤ) : Outcome :=
  -- no NUL is added when the request already ends in one
  let spaceForNull : ℕ := if 0 < n ∧ data.getD (n.toNat - 1) 0 ≠ 0 then 1 else 0
  -- an append-only stream undoes any seeking or reading
  let ck := if ck.append then { ck with offset := ck.size } else ck
  let fits := (toSize n + spaceForNull) % 2 ^ 64 ≤ subSize ck.capacity ck.offset
  let n := if fits then n else toInt (subSize (subSize ck.capacity ck.offset) spaceForNull)
  if ¬fits ∧ n ≤ 0 then ⟨-1, some enospc, ck⟩
  else if 0 < n then
    let buf := copyIn ck.buf ck.offset data n.toNat
    let offset := (ck.offset + n.toNat) % 2 ^ 64
    if ck.size ≤ offset then
      let buf := if data.getD (n.toNat - 1) 0 ≠ 0 then Function.update buf offset 0 else buf
      ⟨n, none, { ck with buf, offset, size := offset }⟩
    else ⟨n, none, { ck with buf, offset }⟩
  else ⟨n, none, ck⟩

/-- The `whence` of a seek. -/
inductive Whence where
  | set
  | cur
  | «end»
  deriving DecidableEq, Repr

/-- `fmemopen_seek(cookie, offset, whence)`. -/
def fmemopenSeek (ck : Cookie) (offset : ℤ) : Whence → Outcome
  | .set =>
    if 0 ≤ offset ∧ toSize offset ≤ ck.capacity then
      ⟨offset, none, { ck with offset := toSize offset }⟩
    else ⟨-1, some einval, ck⟩
  | .cur =>
    if (ck.offset + toSize offset) % 2 ^ 64 ≤ ck.capacity then
      ⟨toFpos ((ck.offset + toSize offset) % 2 ^ 64), none,
        { ck with offset := (ck.offset + toSize offset) % 2 ^ 64 }⟩
    else ⟨-1, some einval, ck⟩
  | .end =>
    if offset ≤ 0 ∧ toSize (-offset) ≤ ck.size then
      ⟨toFpos ((ck.size + toSize offset) % 2 ^ 64), none,
        { ck with offset := (ck.size + toSize offset) % 2 ^ 64 }⟩
    else ⟨-1, some einval, ck⟩

/-- `strnlen(buf, capacity)`. -/
def strnlen (buf : ℕ → UInt8) : ℕ → ℕ
  | 0 => 0
  | n + 1 => if buf 0 = 0 then 0 else strnlen (fun i ↦ buf (i + 1)) n + 1

/-- `__sflags(mode, &flags) & O_ACCMODE`: `O_RDONLY` for `r`, `O_WRONLY` for `w` and `a`,
`O_RDWR` with a `+`; `none` for any other first letter. -/
def sflagsAccess : List Char → Option ℕ
  | 'r' :: rest => some (if '+' ∈ rest then 2 else 0)
  | 'w' :: rest => some (if '+' ∈ rest then 2 else 1)
  | 'a' :: rest => some (if '+' ∈ rest then 2 else 1)
  | _ => none

/-- The cookie of `fmemopen(buf, capacity, mode)` once its allocations succeed, and whether
`fmemopen_read` is installed (`fmemopen_write` always is: `flags & O_RDONLY` is `0`). `mem` is the
caller's buffer, or the zeroed allocation for a null `buf`. -/
def fmemopen (mem : ℕ → UInt8) (capacity : ℕ) (mode : List Char) : Option (Cookie × Bool) :=
  (sflagsAccess mode).map fun access ↦
    let readable := access % 2 = 0
    let ck : Cookie := ⟨mem, capacity, 0, 0, false⟩
    match mode with
    | 'a' :: _ =>
      ({ ck with size := strnlen mem capacity, offset := strnlen mem capacity, append := true },
        readable)
    | 'r' :: _ => ({ ck with size := capacity }, readable)
    | _ => ({ ck with buf := if 0 < capacity then Function.update mem 0 0 else mem }, readable)

/-! ### What the cookie functions keep -/

/-- The bounds the cookie should keep: `size` and `offset` within `capacity`, a `size_t`. -/
def Cookie.Bounded (ck : Cookie) : Prop :=
  ck.capacity < 2 ^ 64 ∧ ck.size ≤ ck.capacity ∧ ck.offset ≤ ck.capacity

theorem toInt_le (x : ℕ) : toInt x ≤ x := by
  unfold toInt
  have := Nat.mod_le x (2 ^ 32)
  split_ifs <;> omega

theorem fmemopenSeek_offset_le {ck : Cookie} (hck : ck.Bounded) (offset : ℤ) (whence : Whence) :
    (fmemopenSeek ck offset whence).cookie.Bounded := by
  obtain ⟨hcap, hsize, hoff⟩ := hck
  cases whence with
  | set =>
    simp only [fmemopenSeek]
    split_ifs with h
    · exact ⟨hcap, hsize, h.2⟩
    · exact ⟨hcap, hsize, hoff⟩
  | cur =>
    simp only [fmemopenSeek]
    split_ifs with h
    · exact ⟨hcap, hsize, h⟩
    · exact ⟨hcap, hsize, hoff⟩
  | «end» =>
    simp only [fmemopenSeek]
    split_ifs with h
    · -- `size + offset` for `-size ≤ offset ≤ 0`
      refine ⟨hcap, hsize, ?_⟩
      simp only [toSize] at h ⊢
      omega
    · exact ⟨hcap, hsize, hoff⟩

/-- A read from an offset at most `size` copies the bytes from `offset` on, no more than the
request and no further than `size`, and leaves the offset at most `size`. -/
theorem fmemopenRead_of_le_size {ck : Cookie} (hsize : ck.size < 2 ^ 64) (hle : ck.offset ≤ ck.size)
    {n : ℤ} (h0 : 0 ≤ n) (hn : n < 2 ^ 31) :
    (fmemopenRead ck n).2 =
        (List.range (min n.toNat (ck.size - ck.offset))).map (fun i ↦ ck.buf (ck.offset + i)) ∧
      (fmemopenRead ck n).1.cookie.offset ≤ ck.size := by
  have hsub : subSize ck.size ck.offset = ck.size - ck.offset := subSize_of_le hle hsize
  have hsz : toSize n = n.toNat := toSize_of_nonneg h0 (by omega)
  unfold fmemopenRead
  simp only [hsub, hsz, gt_iff_lt]
  by_cases hgt : ck.size - ck.offset < n.toNat
  · -- cut to what is left before `size`
    have hleft : toInt (ck.size - ck.offset) = ((ck.size - ck.offset : ℕ) : ℤ) :=
      toInt_of_lt (by omega)
    have hleft' : toSize ((ck.size - ck.offset : ℕ) : ℤ) = ck.size - ck.offset :=
      toSize_of_nonneg (by omega) (by omega)
    rw [if_pos hgt, hleft, hleft', Nat.min_eq_right (by omega)]
    split_ifs with hpos
    · refine ⟨by simp, ?_⟩
      dsimp only
      rw [Nat.mod_eq_of_lt (by omega)]
      omega
    · have : ck.size - ck.offset = 0 := by omega
      simp [this, hle]
  · rw [if_neg hgt, Nat.min_eq_left (by omega)]
    split_ifs with hpos
    · refine ⟨rfl, ?_⟩
      dsimp only
      rw [hsz, Nat.mod_eq_of_lt (by omega)]
      omega
    · have : n.toNat = 0 := by omega
      simp [this, hle]

theorem fmemopenWrite_room {capacity offset spaceForNull : ℕ} {n : ℤ} (hoffset : offset ≤ capacity)
    (hcapacity : capacity < 2 ^ 64) (hnull : spaceForNull ≤ 1) (hn : n < 2 ^ 31)
    (hpos : 0 < if (toSize n + spaceForNull) % 2 ^ 64 ≤ subSize capacity offset then n
      else toInt (subSize (subSize capacity offset) spaceForNull)) :
    offset + (if (toSize n + spaceForNull) % 2 ^ 64 ≤ subSize capacity offset then n
      else toInt (subSize (subSize capacity offset) spaceForNull)).toNat + spaceForNull ≤ capacity := by
  rw [subSize_of_le hoffset hcapacity] at hpos ⊢
  split_ifs at hpos ⊢ with hfits
  · -- the whole request and its NUL fit
    rw [toSize_of_nonneg (by omega) (by omega), Nat.mod_eq_of_lt (by omega)] at hfits
    omega
  · by_cases hroom : spaceForNull ≤ capacity - offset
    · -- cut to the room left less the NUL's
      rw [subSize_of_le hroom (by omega)] at hpos ⊢
      have := toInt_le (capacity - offset - spaceForNull)
      omega
    · -- no room even for the NUL: `capacity - offset - 1` wraps to `-1`
      obtain rfl : spaceForNull = 1 := by omega
      rw [show capacity - offset = 0 by omega] at hpos
      exact absurd hpos (by decide)

/-- A write keeps `size` and `offset` of a bounded cookie within `capacity`, and stores nowhere
past `buf[capacity]`. -/
theorem fmemopenWrite_bounds {ck : Cookie} (hck : ck.Bounded) (data : List UInt8) {n : ℤ}
    (hn : n < 2 ^ 31) :
    (fmemopenWrite ck data n).cookie.Bounded ∧
      ∀ i, (fmemopenWrite ck data n).cookie.buf i ≠ ck.buf i → i ≤ ck.capacity := by
  obtain ⟨hcap, hsize, hoff⟩ := hck
  unfold fmemopenWrite
  dsimp only
  -- the cookie after the append rule
  generalize hck1 : (if ck.append = true then { ck with offset := ck.size } else ck) = ck1
  have hb1 : ck1.capacity = ck.capacity ∧ ck1.Bounded ∧ ck1.buf = ck.buf := by
    subst hck1
    split_ifs
    · exact ⟨rfl, ⟨hcap, hsize, hsize⟩, rfl⟩
    · exact ⟨rfl, ⟨hcap, hsize, hoff⟩, rfl⟩
  obtain ⟨hcap1, hbounded1, hbuf1⟩ := hb1
  generalize hnull : (if 0 < n ∧ data.getD (n.toNat - 1) 0 ≠ 0 then 1 else 0) = spaceForNull
  have hnull1 : spaceForNull ≤ 1 := by
    subst hnull
    split_ifs <;> omega
  have hroom := fmemopenWrite_room (n := n) hbounded1.2.2 hbounded1.1 hnull1 hn
  rw [← hcap1]
  generalize (if (toSize n + spaceForNull) % 2 ^ 64 ≤ subSize ck1.capacity ck1.offset then n
    else toInt (subSize (subSize ck1.capacity ck1.offset) spaceForNull)) = kept at hroom ⊢
  split_ifs with henospc hpos hgrow hnul
  · -- `ENOSPC`: nothing stored
    exact ⟨hbounded1, fun i h ↦ absurd (hbuf1 ▸ rfl) h⟩
  all_goals first
    | (exact ⟨hbounded1, fun i h ↦ absurd (hbuf1 ▸ rfl) h⟩)
    | skip
  -- the bytes kept go to `[offset, offset + kept)`, and the offset moves past them
  all_goals
    have hend := hroom hpos
    have hmod : (ck1.offset + kept.toNat) % 2 ^ 64 = ck1.offset + kept.toNat :=
      Nat.mod_eq_of_lt (by omega)
    simp only [hmod, Cookie.Bounded]
  · refine ⟨⟨hbounded1.1, by omega, by omega⟩, fun i h ↦ ?_⟩
    -- the NUL after the bytes kept, at `buf[capacity]` when the request's own NUL was cut
    by_cases hi : i = ck1.offset + kept.toNat
    · omega
    · rw [Function.update_of_ne hi] at h
      have := copyIn_ne (hbuf1 ▸ h)
      omega
  · refine ⟨⟨hbounded1.1, by omega, by omega⟩, fun i h ↦ ?_⟩
    have := copyIn_ne (hbuf1 ▸ h)
    omega
  · refine ⟨⟨hbounded1.1, hbounded1.2.1, by omega⟩, fun i h ↦ ?_⟩
    have := copyIn_ne (hbuf1 ▸ h)
    omega

/-- From `fmemopen(buf, 10, "w+")`, a seek to 5 and a read of 8 bytes copy from past the logical
end (`size` is 0) and past the buffer, and leave the offset at 13. From `fmemopen(buf, 4, "w")`,
a write of `"abcdef"` with its NUL is cut to 4 bytes and stores a NUL at `buf[4]`. The memory
holds `0x55` everywhere before. -/
theorem fmemopen_past_end :
    (fmemopen (fun _ ↦ 0x55) 10 ['w', '+']).map (fun opened ↦
        let read := fmemopenRead (fmemopenSeek opened.1 5 .set).cookie 8
        (opened.2, opened.1.size, read.1.ret, read.1.cookie.offset, read.2)) =
      some (true, 0, 8, 13, List.replicate 8 0x55) ∧
    (fmemopen (fun _ ↦ 0x55) 4 ['w']).map (fun opened ↦
        let write := fmemopenWrite opened.1 [0x61, 0x62, 0x63, 0x64, 0x65, 0x66, 0] 7
        (write.ret, write.cookie.size, write.cookie.buf 4)) =
      some (4, 4, 0) := by
  decide

end Bionic.Stdio.Fmemopen
