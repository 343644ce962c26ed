import Bionic.Stdio.Parsefloat

/-!
# `wcstod`

`wcstof`, `wcstod` and `wcstold` (wcstod.cpp) convert a wide string through the byte functions.
After the leading white space they take the run of characters from the set
`-+0123456789.xXeEpP()nNaAiIfFtTyY` (`wcsspn`) and copy it to bytes. `parsefloat` finds how much
of it is a number, and those bytes go to `strtod`; if the two disagree, `abort()`. `*end` is set
past the number, or to the string itself when there is none. The three functions differ only in
the `strtod` behind them, a parameter here.

So `*end` never passes the run (`wcstod_end_le`). The set lacks the hexadecimal digits `b`, `c`
and `d` in either case, and most letters and the `_` of a `nan(...)`: there the conversion stops
early, and for `0x1b` the end is after `0x1` (`wcstod_stops_at_hex_digit_b`).
-/

set_option autoImplicit false
set_option relaxedAutoImplicit false

namespace Bionic.Stdlib.Wcstod

open Bionic.Stdlib.Strtol Bionic.Stdio.Parsefloat Bionic.Lib.LongestMatch

/-- The characters of the set that `wcstod` lets through to `parsefloat`. -/
def floatChars : List ℤ := ascii "-+0123456789.xXeEpP()nNaAiIfFtTyY"

/-- `wcsspn(str, accept)`: the length of the run at the start of `str` of characters from
`accept`. -/
def wcsspn (str accept : List ℤ) : ℕ := (str.takeWhile fun c ↦ accept.contains c).length

/-- `wcstod<float_type>(str, end, strtod_fn)` on the characters of `str` before its terminator.
`strtodFn` returns the result of `strtod_fn` and how far past its argument it sets its end. The
value is `none` where the function calls `abort()`, and otherwise the result and how far past
`str` it sets `*end`. -/
def wcstod {β : Type} (iswspace : ℤ → Bool) (strtodFn : List ℤ → β × ℕ) (str : List ℤ) :
    Option (β × ℕ) :=
  let skipped := (str.takeWhile iswspace).length
  let s := str.drop skipped
  let maxLen := wcsspn s floatChars
  -- `ascii_str[i] = str[i] & 0xff`
  let asciiStr := (s.take maxLen).map (· % 256)
  let actualLen := parsefloat asciiStr maxLen
  -- `parsefloat` leaves the bytes it accepted in place, with a zero after them
  let r := strtodFn (asciiStr.take actualLen)
  if r.2 ≠ actualLen then none
  else some (r.1, if actualLen = 0 then 0 else skipped + actualLen)

/-- The run at the start of `s` of characters from the set. -/
def span (s : List ℤ) : List ℤ := s.takeWhile fun c ↦ floatChars.contains c

theorem floatChars_bytes : ∀ c ∈ floatChars, 0 ≤ c ∧ c < 256 := by
  decide

theorem take_wcsspn (s : List ℤ) : s.take (wcsspn s floatChars) = span s := by
  unfold wcsspn span
  nth_rewrite 2 [← List.takeWhile_append_dropWhile (p := fun c ↦ floatChars.contains c) (l := s)]
  rw [List.take_append_of_le_length (Nat.le_refl _), List.take_length]

theorem span_map_mod (s : List ℤ) : (span s).map (· % 256) = span s := by
  conv_rhs => rw [← List.map_id (span s)]
  apply List.map_congr_left
  intro c hc
  have hmem : floatChars.contains c = true := List.mem_takeWhile_imp hc
  obtain ⟨h0, h256⟩ := floatChars_bytes c (by simpa using hmem)
  exact Int.emod_eq_of_lt h0 h256

section Spec

variable {β : Type} (iswspace : ℤ → Bool) (strtodFn : List ℤ → β × ℕ)

/-- `wcstod` aborts or returns what `strtod` makes of the prefix that `parsefloat` accepts of the
run after the white space. -/
theorem wcstod_eq_span (str : List ℤ) :
    let skipped := (str.takeWhile iswspace).length
    let t := span (str.drop skipped)
    let n := parsefloat t t.length
    wcstod iswspace strtodFn str = if (strtodFn (t.take n)).2 ≠ n then none
      else some ((strtodFn (t.take n)).1, if n = 0 then 0 else skipped + n) := by
  simp only [wcstod, take_wcsspn, span_map_mod]
  rfl

theorem wcstod_end_le {str : List ℤ} {r : β} {e : ℕ} (h : wcstod iswspace strtodFn str = some (r, e)) :
    e ≤ (str.takeWhile iswspace).length + (span (str.drop (str.takeWhile iswspace).length)).length := by
  rw [wcstod_eq_span] at h
  split at h
  · simp at h
  · have hle := parsefloat_le (span (str.drop (str.takeWhile iswspace).length))
      (span (str.drop (str.takeWhile iswspace).length)).length
    rw [List.take_length] at hle
    obtain ⟨-, rfl⟩ := Prod.mk.inj (Option.some.inj h)
    split <;> omega

/-- `0x1b` is a subject sequence, but `b` is not in the set: `parsefloat` sees `0x1`, `strtod`
converts `0x1`, and unless it aborts `wcstod` sets `*end` three characters on, not four. -/
theorem wcstod_stops_at_hex_digit_b (hspace : iswspace 48 = false) :
    IsLongest Subject (ascii "0x1b") 4 ∧
      wcstod iswspace strtodFn (ascii "0x1b") = if (strtodFn (ascii "0x1")).2 ≠ 3 then none
        else some ((strtodFn (ascii "0x1")).1, 3) := by
  have hsig : Significand isxdigit (ascii "1b") := ⟨by decide, by decide, 49, by decide, by decide⟩
  have hsubject : Subject (ascii "0x1b") :=
    ⟨[], ascii "0x1b", rfl, Or.inl rfl,
      Or.inr (Or.inl ⟨120, ascii "1b", rfl, Or.inr rfl, ascii "1b", [], rfl, hsig, Or.inl rfl⟩)⟩
  refine ⟨isLongest_self hsubject, ?_⟩
  have hskip : (ascii "0x1b").takeWhile iswspace = [] := by
    simp [ascii, hspace]
  have hspan : span (ascii "0x1b") = ascii "0x1" := by decide
  have hrun : parsefloat (ascii "0x1") (ascii "0x1").length = 3 := by decide
  have htake : (ascii "0x1").take 3 = ascii "0x1" := by decide
  rw [wcstod_eq_span, hskip]
  simp [hspan, hrun, htake]

theorem wcstod_stops_at_hex_digit_b_ascii :
    (fun _ ↦ false : ℤ → Bool) 48 = false ∧
      IsLongest Subject (ascii "0x1b") 4 ∧
      wcstod (fun _ ↦ false) (fun s ↦ ((), parsefloat s s.length)) (ascii "0x1b") = some ((), 3) := by
  refine ⟨rfl, ?_⟩
  have h := wcstod_stops_at_hex_digit_b (fun _ ↦ false) (fun s ↦ ((), parsefloat s s.length)) rfl
  have hrun : parsefloat (ascii "0x1") (ascii "0x1").length = 3 := by decide
  simpa [hrun] using h

end Spec

end Bionic.Stdlib.Wcstod
