import Bionic.Uchar.Utf8
import Bionic.Lib.FitChunks
import Mathlib.Data.List.TakeWhile
import Mathlib.Algebra.Order.Ring.Nat

/-!
# `wcsnrtombs` and `mbsnrtowcs`

`wcsnrtombs` converts a wide string to UTF-8 a character at a time: plain ASCII directly, any
other character with `wcrtomb`, in place while at least `MB_LEN_MAX` bytes are left and through a
scratch buffer after that. From the initial state it stores the longest run of whole encodings
that fits in `len` bytes, and the NUL if that fits as well (`wcsConvert_eq`, `fitChunks`); with no
buffer it returns the length of all of them. A character above `0x1FFFFF` has no form that
`c32rtomb` writes, and the call returns `(size_t)-1` there.

`mbsnrtowcs` decodes with `mbrtowc`, reading plain ASCII directly. With a buffer big enough for
every character it returns what it returns with none, from any state (`mbsConvert_ret`), and
from the initial state that is what calling `mbrtowc` over the bytes returns (`mbsMeasure_run`):
after the first character the state is initial again, so the fast path for ASCII reads what
`mbrtowc` would. `wcsnrtombs_mbsnrtowcs_initial` puts the two conversions together.

A string is the list of its characters before the terminating NUL, which the models read after
the last of them.
-/

set_option autoImplicit false
set_option relaxedAutoImplicit false

namespace Bionic.Uchar

open Bionic.Lib
open Bionic.Lib.Utf8 (encode)
open Bionic.Lib.FitChunks (fitChunks fitChunks_nil fitChunks_cons_of_le fitChunks_cons_of_lt)

/-- What a conversion of a string reports: its return (a count, or `(size_t)-1` with `errno`),
what it stored from `dst[0]` on, and `*src` afterwards (`none` for `nullptr`, or how far it moved
on). -/
structure Conversion (α : Type) where
  ret : Except ℤ ℕ
  written : List α
  src : Option ℕ
  deriving DecidableEq, Repr

/-- `MB_LEN_MAX`. -/
def mbLenMax : ℕ := 4

/-! ### `wcsnrtombs` -/

section Wcs

/-- The loop of `wcsnrtombs` with no buffer: `n` characters may still be read, `o` bytes are
counted. -/
def wcsMeasure : MbState → List UInt32 → ℕ → ℕ → Except ℤ ℕ × MbState
  | st, _, 0, o => (.ok o, st)
  | st, w, n + 1, o =>
    let wc := w.headD 0
    if wc.toNat < 0x80 then
      -- the fast path for plain ASCII, and the NUL
      if wc = 0 then (.ok o, st) else wcsMeasure st w.tail n (o + 1)
    else
      match c32rtomb wc st with
      | (.error e, st') => (.error e, st')
      | (.ok bytes, st') => wcsMeasure st' w.tail n (o + bytes.length)

/-- The loop of `wcsnrtombs` into `dst[0, len)`: `n` characters may still be read, `i` have been,
`out` is what was stored. -/
def wcsConvert (len : ℕ) : MbState → List UInt32 → ℕ → ℕ → List UInt8 → Conversion UInt8 × MbState
  | st, _, 0, i, out => (⟨.ok out.length, out, some i⟩, st)
  | st, w, n + 1, i, out =>
    if len ≤ out.length then (⟨.ok out.length, out, some i⟩, st)
    else
      let wc := w.headD 0
      if wc.toNat < 0x80 then
        -- the fast path for plain ASCII, and the NUL
        if wc = 0 then (⟨.ok out.length, out ++ [0], none⟩, st)
        else wcsConvert len st w.tail n (i + 1) (out ++ [wc.toUInt8])
      else if mbLenMax ≤ len - out.length then
        -- enough space to translate in place
        match c32rtomb wc st with
        | (.error e, st') => (⟨.error e, out, some i⟩, st')
        | (.ok bytes, st') => wcsConvert len st' w.tail n (i + 1) (out ++ bytes)
      else
        -- through `buf`, copied only if it fits
        match c32rtomb wc st with
        | (.error e, st') => (⟨.error e, out, some i⟩, st')
        | (.ok bytes, st') =>
          if len - out.length < bytes.length then (⟨.ok out.length, out, some i⟩, st')
          else wcsConvert len st' w.tail n (i + 1) (out ++ bytes)

/-- `wcsnrtombs(dst, &src, nwc, len, ps)` on the wide string `w`, `dst` a buffer of `len` bytes
or `nullptr`: what it reports and the state it leaves. -/
def wcsnrtombs (dst : Option ℕ) (w : List UInt32) (nwc : ℕ) (state : MbState) :
    Conversion UInt8 × MbState :=
  if !state.isInitial then (⟨.error eilseq, [], some 0⟩, .initial)
  else
    match dst with
    | none => (⟨(wcsMeasure state w nwc 0).1, [], some 0⟩, (wcsMeasure state w nwc 0).2)
    | some len => wcsConvert len state w nwc 0 []

/-! What the conversion is meant to produce. -/

/-- The UTF-8 form of a character, the pattern `c32rtomb` writes. -/
def utf8 (c : UInt32) : List UInt8 := (encode c.toNat).map Nat.toUInt8

/-- The forms of the characters `cs`, of which `n` may be read, then the NUL that ends the string
if it is among the `n`. -/
def encodings (cs : List UInt32) (n : ℕ) : List (List UInt8) :=
  (cs.take n).map utf8 ++ if cs.length < n then [[0]] else []

/-- What `wcsnrtombs` reports once `out` is stored and `i` characters read, when the forms `taken`
are stored next, the last of them the NUL if there are more than `k`. -/
def finish (out : List UInt8) (i k : ℕ) (taken : List (List UInt8)) : Conversion UInt8 :=
  if k < taken.length then
    ⟨.ok (out.length + taken.flatten.length - 1), out ++ taken.flatten, none⟩
  else ⟨.ok (out.length + taken.flatten.length), out ++ taken.flatten, some (i + taken.length)⟩

theorem finish_nil (out : List UInt8) (i k : ℕ) : finish out i k [] = ⟨.ok out.length, out, some i⟩ := by
  simp [finish]

theorem finish_cons (out : List UInt8) (i k : ℕ) (e : List UInt8) (taken : List (List UInt8)) :
    finish out i (k + 1) (e :: taken) = finish (out ++ e) (i + 1) k taken := by
  unfold finish
  by_cases hk : k < taken.length
  · rw [if_pos (by simp; omega), if_pos hk]
    simp only [List.flatten_cons, List.length_append, List.append_assoc, Conversion.mk.injEq,
      Except.ok.injEq, and_true]
    omega
  · rw [if_neg (by simp; omega), if_neg hk]
    simp only [List.flatten_cons, List.length_append, List.append_assoc, List.length_cons,
      Conversion.mk.injEq, Except.ok.injEq, Option.some.injEq, true_and]
    omega

theorem finish_nul (out : List UInt8) (i : ℕ) : finish out i 0 [[0]] = ⟨.ok out.length, out ++ [0], none⟩ := by
  simp [finish]

theorem length_utf8_pos (c : UInt32) : 0 < (utf8 c).length := by
  unfold utf8 encode
  split_ifs <;> simp

theorem length_utf8_le (c : UInt32) : (utf8 c).length ≤ mbLenMax := by
  unfold utf8 encode mbLenMax
  split_ifs <;> simp

theorem utf8_of_lt {c : UInt32} (h : c.toNat < 0x80) : utf8 c = [c.toUInt8] := by
  rw [utf8, Utf8.encode_one h]
  rfl

theorem c32rtomb_utf8 {c : UInt32} (h : c.toNat ≤ 0x1FFFFF) :
    c32rtomb c .initial = (.ok (utf8 c), .initial) := by
  obtain ⟨bytes, henc, hbytes⟩ := (c32rtomb_eq_encode c).1 h
  rw [henc, utf8, ← hbytes, List.map_map]
  congr
  conv_lhs => rw [← List.map_id bytes]
  exact List.map_congr_left fun x _ ↦ (UInt8.ofNat_toNat).symm

/-- The loop from the initial state on the characters `cs`, then the NUL: it stores the longest
run of whole forms that fits after `out`. -/
theorem wcsConvert_eq (len : ℕ) {rest : List UInt32} (hrest : rest.headD 0 = 0) :
    ∀ (cs : List UInt32) (n i : ℕ) (out : List UInt8),
      (∀ c ∈ cs.take n, c ≠ 0 ∧ c.toNat ≤ 0x1FFFFF) → out.length ≤ len →
      wcsConvert len .initial (cs ++ rest) n i out =
        (finish out i (cs.take n).length (fitChunks (len - out.length) (encodings cs n)), .initial)
  | _, 0, i, out, _, _ => by simp [wcsConvert, encodings, finish_nil]
  | [], n + 1, i, out, _, hout => by
    by_cases hfull : len ≤ out.length
    · -- no byte left, not even for the NUL
      rw [wcsConvert, if_pos hfull, show len - out.length = 0 by omega]
      simp [encodings, fitChunks, finish_nil]
    · rw [wcsConvert, if_neg hfull, List.nil_append, hrest]
      simp only [encodings, List.take_nil, List.map_nil, List.length_nil, Nat.zero_lt_succ,
        if_true, List.nil_append]
      rw [fitChunks_cons_of_le _ (by simp; omega), fitChunks_nil, finish_nul]
      rfl
  | c :: cs, n + 1, i, out, hcs, hout => by
    obtain ⟨hc0, hcmax⟩ := hcs c (by simp)
    have hcs' : ∀ c ∈ cs.take n, c ≠ 0 ∧ c.toNat ≤ 0x1FFFFF := fun c' h ↦ hcs c' (by simp [h])
    have hpos := length_utf8_pos c
    have hle := length_utf8_le c
    have henc : encodings (c :: cs) (n + 1) = utf8 c :: encodings cs n := by
      simp [encodings]
    have htake : ((c :: cs).take (n + 1)).length = (cs.take n).length + 1 := by simp
    rw [henc, htake]
    by_cases hfull : len ≤ out.length
    · rw [wcsConvert, if_pos hfull, fitChunks_cons_of_lt _ (by omega), finish_nil]
    rw [wcsConvert, if_neg hfull, List.cons_append, List.headD_cons, List.tail_cons]
    -- the character fits: it is stored and the loop goes on after it
    have hstep : ∀ bytes, bytes = utf8 c → bytes.length ≤ len - out.length →
        wcsConvert len .initial (cs ++ rest) n (i + 1) (out ++ bytes) =
          (finish out i ((cs.take n).length + 1) (fitChunks (len - out.length) (utf8 c :: encodings cs n)),
            .initial) := by
      rintro bytes rfl hfit
      rw [wcsConvert_eq len hrest cs n (i + 1) (out ++ utf8 c) hcs' (by simp; omega),
        fitChunks_cons_of_le _ hfit, finish_cons]
      simp only [List.length_append]
      congr 3
      omega
    by_cases hascii : c.toNat < 0x80
    · rw [if_pos hascii, if_neg hc0]
      exact hstep [c.toUInt8] (utf8_of_lt hascii).symm (by rw [List.length_singleton]; omega)
    rw [if_neg hascii, c32rtomb_utf8 hcmax]
    by_cases hroom : mbLenMax ≤ len - out.length
    · rw [if_pos hroom]
      exact hstep _ rfl (by omega)
    · rw [if_neg hroom]
      dsimp only
      by_cases hfit : len - out.length < (utf8 c).length
      · rw [if_pos hfit, fitChunks_cons_of_lt _ hfit, finish_nil]
      · rw [if_neg hfit]
        exact hstep _ rfl (by omega)

theorem wcsMeasure_eq {rest : List UInt32} (hrest : rest.headD 0 = 0) :
    ∀ (cs : List UInt32) (n o : ℕ), (∀ c ∈ cs.take n, c ≠ 0 ∧ c.toNat ≤ 0x1FFFFF) →
      wcsMeasure .initial (cs ++ rest) n o = (.ok (o + ((cs.take n).map utf8).flatten.length), .initial)
  | _, 0, o, _ => by simp [wcsMeasure]
  | [], n + 1, o, _ => by
    simp only [wcsMeasure, List.nil_append, hrest]
    simp
  | c :: cs, n + 1, o, hcs => by
    obtain ⟨hc0, hcmax⟩ := hcs c (by simp)
    have hcs' : ∀ c ∈ cs.take n, c ≠ 0 ∧ c.toNat ≤ 0x1FFFFF := fun c' h ↦ hcs c' (by simp [h])
    have hrun := wcsMeasure_eq hrest cs n (o + (utf8 c).length) hcs'
    rw [wcsMeasure, List.cons_append, List.headD_cons, List.tail_cons, List.take_succ_cons,
      List.map_cons, List.flatten_cons, List.length_append]
    by_cases hascii : c.toNat < 0x80
    · rw [if_pos hascii, if_neg hc0, show o + 1 = o + (utf8 c).length by simp [utf8_of_lt hascii],
        hrun]
      congr 2
      omega
    · rw [if_neg hascii, c32rtomb_utf8 hcmax]
      dsimp only
      rw [hrun]
      congr 2
      omega

end Wcs

/-! ### `mbsnrtowcs` -/

section Mbs

-- the bytes from `*src` on, the string and what follows it
variable (src : ℕ → UInt8)

/-- The `n` bytes at `src + i`, as `mbrtowc` is handed them. -/
def window (i n : ℕ) : List UInt8 := (List.range n).map fun j ↦ src (i + j)

theorem window_succ (i n : ℕ) : window src i (n + 1) = src i :: window src (i + 1) n := by
  simp only [window, List.range_succ_eq_map, List.map_cons, List.map_map, Nat.add_zero]
  congr 1
  exact List.map_congr_left fun j _ ↦ by simp [Nat.add_comm j 1, Nat.add_assoc]

/-- The loop of `mbsnrtowcs` with no buffer from `src + i`, where `n` bytes may still be read and
`o` characters are counted. -/
def mbsMeasure (st : MbState) (i n o : ℕ) : Except ℤ ℕ :=
  match n with
  | 0 => .ok o
  | n + 1 =>
    if (src i).toNat < 0x80 then
      -- the fast path for plain ASCII, and the NUL
      if src i = 0 then .ok o else mbsMeasure st (i + 1) n (o + 1)
    else
      match mbrtoc32 (window src i (n + 1)) st with
      | (.char _ 0, _) => .ok o
      | (.char _ (r + 1), st') => mbsMeasure st' (i + r + 1) (n - r) (o + 1)
      | _ => .error eilseq
termination_by n
decreasing_by all_goals omega

/-- The loop of `mbsnrtowcs` into `dst[0, len)`: what it reports, `out` being the characters
stored. -/
def mbsConvert (len : ℕ) (st : MbState) (i n : ℕ) (out : List UInt32) : Conversion UInt32 :=
  match n with
  | 0 => ⟨.ok out.length, out, some i⟩
  | n + 1 =>
    if len ≤ out.length then ⟨.ok out.length, out, some i⟩
    else if (src i).toNat < 0x80 then
      -- the byte is stored before the test for the NUL
      if src i = 0 then ⟨.ok out.length, out ++ [0], none⟩
      else mbsConvert len st (i + 1) n (out ++ [(src i).toUInt32])
    else
      match mbrtoc32 (window src i (n + 1)) st with
      | (.char c 0, _) => ⟨.ok out.length, out ++ [c], none⟩
      | (.char c (r + 1), st') => mbsConvert len st' (i + r + 1) (n - r) (out ++ [c])
      | (.incomplete, _) => ⟨.error eilseq, out, some (i + n + 1)⟩
      | (.illegal _, _) => ⟨.error eilseq, out, some i⟩
termination_by n
decreasing_by all_goals omega

/-- `mbsnrtowcs(dst, &src, nmc, len, ps)`, `dst` a buffer of `len` characters or `nullptr`. Every
return resets the state. -/
def mbsnrtowcs (dst : Option ℕ) (nmc : ℕ) (state : MbState) : Conversion UInt32 :=
  -- an ASCII byte may only begin a character
  if 0 < nmc ∧ 0 < state.bytesSoFar ∧ (src 0).toNat < 0x80 then ⟨.error eilseq, [], some 0⟩
  else
    match dst with
    | none => ⟨mbsMeasure src state 0 nmc 0, [], some 0⟩
    | some len => mbsConvert src len state 0 nmc []

/-- `mbrtowc` called again and again over the bytes at `src + i`, of which `n` may be read, on
what is left of them each time, until a call returns 0: the characters stored before that and
whether it came, or `none` once a call returns `(size_t)-1` or `(size_t)-2`. -/
def mbrtowcRun (st : MbState) (i n : ℕ) : Option (List UInt32 × Bool) :=
  match n with
  | 0 => some ([], false)
  | n + 1 =>
    match mbrtoc32 (window src i (n + 1)) st with
    | (.char _ 0, _) => some ([], true)
    | (.char c (r + 1), st') => (mbrtowcRun st' (i + r + 1) (n - r)).map fun p ↦ (c :: p.1, p.2)
    | _ => none
termination_by n

/-- The count `mbrtowcRun` gives, as `mbsnrtowcs` returns it. -/
def runCount : Option (List UInt32 × Bool) → Except ℤ ℕ
  | some p => .ok p.1.length
  | none => .error eilseq

theorem MbState.eq_initial_of_isInitial {st : MbState} (h : st.isInitial = true) :
    st = .initial := by
  obtain ⟨seq, hlen⟩ := st
  match seq, hlen with
  | [a, b, c, d], _ =>
    simp only [MbState.isInitial, List.all_cons, List.all_nil, beq_iff_eq, Bool.and_eq_true,
      and_true] at h
    obtain ⟨rfl, rfl, rfl, rfl⟩ := h
    rfl

theorem mbrtoc32_ascii {st : MbState} (hst : st.isInitial = true) {b : UInt8}
    (hb : b.toNat < 0x80) (rest : List UInt8) :
    mbrtoc32 (b :: rest) st = (.char b.toUInt32 (if b != 0 then 1 else 0), st) := by
  obtain rfl := MbState.eq_initial_of_isInitial hst
  simp [mbrtoc32, (ascii_iff b).2 (by omega)]

theorem isInitial_of_mbrtoc32_char {s : List UInt8} {st st' : MbState} {c : UInt32} {r : ℕ}
    (h : mbrtoc32 s st = (.char c r, st')) : st'.isInitial = true := by
  unfold mbrtoc32 at h
  split at h
  · cases h
  split at h
  · cases h
  split at h
  · rename_i hfast
    simp only [Prod.mk.injEq] at h
    obtain ⟨-, rfl⟩ := h
    simp only [Bool.and_eq_true] at hfast
    exact hfast.1
  dsimp only at h
  -- every other way to a character ends in the initial state
  repeat' split at h
  all_goals
    first
      | (cases h; done)
      | (rw [← (Prod.mk.inj h).2]; rfl)

/-- With room for every character, the loop into a buffer returns what the loop with no buffer
returns, from any state. -/
theorem mbsConvert_ret (len : ℕ) :
    ∀ (n : ℕ) (st : MbState) (i : ℕ) (out : List UInt32), out.length + n ≤ len →
      (mbsConvert src len st i n out).ret = mbsMeasure src st i n out.length := by
  intro n
  induction n using Nat.strong_induction_on with
  | _ n ih =>
    intro st i out hroom
    rcases n with _ | n
    · simp [mbsConvert, mbsMeasure]
    rw [mbsConvert, mbsMeasure, if_neg (by omega)]
    by_cases hascii : (src i).toNat < 0x80
    · rw [if_pos hascii, if_pos hascii]
      by_cases h0 : src i = 0
      · rw [if_pos h0, if_pos h0]
      · rw [if_neg h0, if_neg h0, ih n (by omega) st (i + 1) _ (by simp; omega), List.length_append,
          List.length_singleton]
    · rw [if_neg hascii, if_neg hascii]
      -- the same call of `mbrtoc32`, and the same step after it
      generalize mbrtoc32 (window src i (n + 1)) st = call
      rcases call with ⟨(⟨c, _ | r⟩ | _ | _), st'⟩
      · rfl
      · show (mbsConvert src len st' (i + r + 1) (n - r) (out ++ [c])).ret = _
        rw [ih (n - r) (by omega) st' (i + r + 1) _ (by simp; omega), List.length_append,
          List.length_singleton]
      · rfl
      · rfl

/-- From the initial state, the loop with no buffer counts what calling `mbrtowc` over the bytes
gives: its fast path for ASCII is `mbrtowc`'s own. -/
theorem mbsMeasure_run :
    ∀ (n : ℕ) (st : MbState) (i o : ℕ), st.isInitial = true →
      mbsMeasure src st i n o = (runCount (mbrtowcRun src st i n)).map (o + ·) := by
  intro n
  induction n using Nat.strong_induction_on with
  | _ n ih =>
    intro st i o hst
    rcases n with _ | n
    · simp [mbsMeasure, mbrtowcRun, runCount, Except.map]
    rw [mbsMeasure, mbrtowcRun, window_succ]
    by_cases hascii : (src i).toNat < 0x80
    · rw [if_pos hascii, mbrtoc32_ascii hst hascii]
      by_cases h0 : src i = 0
      · simp [h0, runCount, Except.map]
      · have hone : (if (src i != 0) then 1 else 0) = 0 + 1 := by simp [h0]
        rw [if_neg h0, hone, ih n (by omega) st (i + 1) (o + 1) hst]
        simp only [Nat.sub_zero, Nat.add_zero]
        cases mbrtowcRun src st (i + 1) n <;> simp [runCount, Except.map]
        omega
    · rw [if_neg hascii, ← window_succ]
      generalize hcall : mbrtoc32 (window src i (n + 1)) st = call
      rcases call with ⟨(⟨c, _ | r⟩ | _ | _), st'⟩
      · simp [runCount, Except.map]
      · show mbsMeasure src st' (i + r + 1) (n - r) (o + 1) = _
        rw [ih (n - r) (by omega) st' (i + r + 1) (o + 1) (isInitial_of_mbrtoc32_char hcall)]
        cases hrun : mbrtowcRun src st' (i + r + 1) (n - r) <;> simp [hrun, runCount, Except.map]
        omega
      · simp [runCount, Except.map]
      · simp [runCount, Except.map]

end Mbs

/-! ### The two conversions -/

section Spec

/-- The characters of a wide string, those before its NUL. -/
def chars (w : List UInt32) : List UInt32 := w.takeWhile (· != 0)

theorem headD_dropWhile (w : List UInt32) : (w.dropWhile (· != 0)).headD 0 = 0 := by
  induction w with
  | nil => rfl
  | cons c w ih =>
    by_cases hc : c = 0
    · simp [hc]
    · simpa [List.dropWhile_cons, hc] using ih

theorem eq_chars_append (w : List UInt32) :
    ∃ rest, w = chars w ++ rest ∧ rest.headD 0 = 0 :=
  ⟨_, List.takeWhile_append_dropWhile.symm, headD_dropWhile w⟩

theorem ne_zero_of_mem_chars {w : List UInt32} {nwc : ℕ} {c : UInt32}
    (h : c ∈ (chars w).take nwc) : c ≠ 0 := by
  have := List.mem_takeWhile_imp (List.mem_of_mem_take h)
  simpa using this

/-- From the initial state `wcsnrtombs` into a buffer of `len` bytes stores the longest run of
whole forms of the first `nwc` characters that fits, and the NUL if that fits too. -/
theorem wcsnrtombs_some (w : List UInt32) (nwc len : ℕ)
    (hw : ∀ c ∈ (chars w).take nwc, c.toNat ≤ 0x1FFFFF) :
    wcsnrtombs (some len) w nwc .initial =
      (finish [] 0 ((chars w).take nwc).length (fitChunks len (encodings (chars w) nwc)),
        .initial) := by
  obtain ⟨rest, hsplit, hrest⟩ := eq_chars_append w
  have hcs : ∀ c ∈ (chars w).take nwc, c ≠ 0 ∧ c.toNat ≤ 0x1FFFFF :=
    fun c h ↦ ⟨ne_zero_of_mem_chars h, hw c h⟩
  generalize chars w = cs at hsplit hcs ⊢
  subst hsplit
  exact wcsConvert_eq len hrest cs nwc 0 [] hcs (Nat.zero_le _)

/-- From the initial state `wcsnrtombs(nullptr, …)` counts the bytes of the forms of the first
`nwc` characters. -/
theorem wcsnrtombs_none (w : List UInt32) (nwc : ℕ)
    (hw : ∀ c ∈ (chars w).take nwc, c.toNat ≤ 0x1FFFFF) :
    (wcsnrtombs none w nwc .initial).1.ret = .ok (((chars w).take nwc).map utf8).flatten.length := by
  obtain ⟨rest, hsplit, hrest⟩ := eq_chars_append w
  have hcs : ∀ c ∈ (chars w).take nwc, c ≠ 0 ∧ c.toNat ≤ 0x1FFFFF :=
    fun c h ↦ ⟨ne_zero_of_mem_chars h, hw c h⟩
  generalize chars w = cs at hsplit hcs ⊢
  subst hsplit
  simp [wcsnrtombs, wcsMeasure_eq hrest cs nwc 0 hcs]

variable (src : ℕ → UInt8)

/-- `mbsnrtowcs(nullptr, …)` and `mbsnrtowcs(dst, …, SIZE_MAX, …)` return the same, from every
state. -/
theorem mbsnrtowcs_none (nmc : ℕ) (hnmc : nmc < 2 ^ 64) (state : MbState) :
    (mbsnrtowcs src none nmc state).ret = (mbsnrtowcs src (some (2 ^ 64 - 1)) nmc state).ret := by
  unfold mbsnrtowcs
  split
  · rfl
  · exact (mbsConvert_ret src _ nmc state 0 [] (by simp; omega)).symm

/-- From the initial state `mbsnrtowcs(nullptr, …)` counts the characters that calling `mbrtowc`
over the bytes gives. -/
theorem mbsnrtowcs_none_initial (nmc : ℕ) :
    (mbsnrtowcs src none nmc .initial).ret = runCount (mbrtowcRun src .initial 0 nmc) := by
  have hmeasure : (mbsnrtowcs src none nmc .initial).ret = mbsMeasure src .initial 0 nmc 0 := by
    simp [mbsnrtowcs, MbState.bytesSoFar]
  rw [hmeasure, mbsMeasure_run src nmc .initial 0 0 rfl]
  cases runCount (mbrtowcRun src .initial 0 nmc) <;> simp [Except.map]

end Spec

/-- From the initial state, on a wide string whose characters are at most `0x1FFFFF`:
`wcsnrtombs` into `len` bytes stores the longest run of whole forms of the first `nwc` characters
that fits, and the NUL after them if it fits too, and reports it as `finish` says; with no buffer
it counts the bytes of every form. -/
theorem wcsnrtombs_mbsnrtowcs_of_le (w : List UInt32) (nwc len : ℕ)
    (hw : ∀ c ∈ (chars w).take nwc, c.toNat ≤ 0x1FFFFF) :
    let forms := encodings (chars w) nwc
    let taken := fitChunks len forms
    (wcsnrtombs (some len) w nwc .initial).1 = finish [] 0 ((chars w).take nwc).length taken ∧
      forms.take taken.length = taken ∧ taken.flatten.length ≤ len ∧
      (taken.length < forms.length → len < (forms.take (taken.length + 1)).flatten.length) ∧
      (wcsnrtombs none w nwc .initial).1.ret = .ok (((chars w).take nwc).map utf8).flatten.length ∧
      ∀ (src : ℕ → UInt8) (nmc : ℕ), nmc < 2 ^ 64 →
        (∀ state, (mbsnrtowcs src none nmc state).ret =
            (mbsnrtowcs src (some (2 ^ 64 - 1)) nmc state).ret) ∧
          (mbsnrtowcs src none nmc .initial).ret = runCount (mbrtowcRun src .initial 0 nmc) := by
  intro forms taken
  -- no run of whole forms longer than the one stored fits
  have hlongest : taken.length < forms.length →
      len < (forms.take (taken.length + 1)).flatten.length := by
    intro hlt
    by_contra hfits
    have hle : min (taken.length + 1) forms.length ≤ taken.length :=
      FitChunks.le_length_fitChunks len (taken.length + 1) forms (by omega)
    omega
  refine ⟨by rw [wcsnrtombs_some w nwc len hw], FitChunks.take_length_fitChunks len forms,
    FitChunks.length_flatten_fitChunks_le len forms, hlongest, wcsnrtombs_none w nwc hw, ?_⟩
  intro src nmc hnmc
  exact ⟨mbsnrtowcs_none src nmc hnmc, mbsnrtowcs_none_initial src nmc⟩

/-- From the initial state, on a wide string of Unicode scalar values: each form is the UTF-8
encoding of its character, and `wcsnrtombs` into `len` bytes stores the longest run of whole
forms of the first `nwc` characters that fits, and the NUL after them if it fits too, and reports
it as `finish` says (the bytes stored but the NUL, and `*src` past the characters stored or
`nullptr`); with no buffer it counts the bytes of every form. `mbsnrtowcs` returns the same with
no buffer as with a buffer of `SIZE_MAX`, from every state, and from the initial state that is
what calling `mbrtowc` over the bytes gives. -/
theorem wcsnrtombs_mbsnrtowcs_initial (w : List UInt32) (nwc len : ℕ)
    (hw : ∀ c ∈ (chars w).take nwc, Utf8.IsScalar c.toNat) :
    let forms := encodings (chars w) nwc
    let taken := fitChunks len forms
    (∀ c ∈ (chars w).take nwc,
        Utf8.Char ((utf8 c).map UInt8.toNat) ∧ Utf8.value ((utf8 c).map UInt8.toNat) = c.toNat) ∧
      (wcsnrtombs (some len) w nwc .initial).1 = finish [] 0 ((chars w).take nwc).length taken ∧
      forms.take taken.length = taken ∧ taken.flatten.length ≤ len ∧
      (taken.length < forms.length → len < (forms.take (taken.length + 1)).flatten.length) ∧
      (wcsnrtombs none w nwc .initial).1.ret = .ok (((chars w).take nwc).map utf8).flatten.length ∧
      ∀ (src : ℕ → UInt8) (nmc : ℕ), nmc < 2 ^ 64 →
        (∀ state, (mbsnrtowcs src none nmc state).ret =
            (mbsnrtowcs src (some (2 ^ 64 - 1)) nmc state).ret) ∧
          (mbsnrtowcs src none nmc .initial).ret = runCount (mbrtowcRun src .initial 0 nmc) := by
  intro forms taken
  -- a scalar value's form is its RFC 3629 encoding, read back as bytes
  have hform : ∀ c ∈ (chars w).take nwc,
      Utf8.Char ((utf8 c).map UInt8.toNat) ∧ Utf8.value ((utf8 c).map UInt8.toNat) = c.toNat := by
    intro c hc
    have hchar := Utf8.char_encode (hw c hc)
    rw [utf8, map_toNat_toUInt8 hchar]
    exact ⟨hchar, Utf8.value_encode (hw c hc).1⟩
  have hle : ∀ c ∈ (chars w).take nwc, c.toNat ≤ 0x1FFFFF := fun c hc ↦ by
    have := (hw c hc).1
    omega
  exact ⟨hform, wcsnrtombs_mbsnrtowcs_of_le w nwc len hle⟩

theorem wcsnrtombs_mbsnrtowcs_initial_euro :
    (∀ c ∈ (chars [0x41, 0x20AC, 0]).take 3, Utf8.IsScalar c.toNat) ∧
    let forms := encodings (chars [0x41, 0x20AC, 0]) 3
    let taken := fitChunks 3 forms
    (∀ c ∈ (chars [0x41, 0x20AC, 0]).take 3,
        Utf8.Char ((utf8 c).map UInt8.toNat) ∧ Utf8.value ((utf8 c).map UInt8.toNat) = c.toNat) ∧
      (wcsnrtombs (some 3) [0x41, 0x20AC, 0] 3 .initial).1 =
        finish [] 0 ((chars [0x41, 0x20AC, 0]).take 3).length taken ∧
      forms.take taken.length = taken ∧ taken.flatten.length ≤ 3 ∧
      (taken.length < forms.length → 3 < (forms.take (taken.length + 1)).flatten.length) ∧
      (wcsnrtombs none [0x41, 0x20AC, 0] 3 .initial).1.ret =
        .ok (((chars [0x41, 0x20AC, 0]).take 3).map utf8).flatten.length ∧
      ∀ (src : ℕ → UInt8) (nmc : ℕ), nmc < 2 ^ 64 →
        (∀ state, (mbsnrtowcs src none nmc state).ret =
            (mbsnrtowcs src (some (2 ^ 64 - 1)) nmc state).ret) ∧
          (mbsnrtowcs src none nmc .initial).ret = runCount (mbrtowcRun src .initial 0 nmc) :=
  have hw : ∀ c ∈ (chars [0x41, 0x20AC, 0]).take 3, Utf8.IsScalar c.toNat := by
    intro c hc
    have hchars : (chars [0x41, 0x20AC, 0]).take 3 = [0x41, 0x20AC] := rfl
    rw [hchars] at hc
    simp only [List.mem_cons, List.not_mem_nil, or_false] at hc
    rcases hc with rfl | rfl <;> decide
  ⟨hw, wcsnrtombs_mbsnrtowcs_initial [0x41, 0x20AC, 0] 3 3 hw⟩

/-- A character above `0x1FFFFF` has no form: `wcsnrtombs` returns `(size_t)-1` with `EILSEQ`,
with a buffer and without one. -/
theorem wcsnrtombs_above_max :
    (wcsnrtombs (some 4) [0x200000] 1 .initial).1 = ⟨.error eilseq, [], some 0⟩ ∧
      (wcsnrtombs none [0x200000] 1 .initial).1.ret = .error eilseq := by
  decide

end Bionic.Uchar
