import Bionic.Stdio.PrintfInt

/-!
# What C23 asks of an integer conversion

C23 7.23.6.1 for `d`, `i`, `o`, `u`, `x`, `X`, `b` and `B`, written from the standard over the
variables the scan of `__vfprintf` has read (`Conv`): the value converted to the type of the length
modifier; at least `precision` digits, 1 by default and none for a zero with precision 0; `#` with
`o` raising the precision just enough for a first digit `0`; `#` with `x`, `X`, `b`, `B` putting
`0x`, `0X`, `0b`, `0B` before a nonzero value; the sign of a signed conversion; and the padding to
the width, on the left, on the right with `-`, or as zeros after the sign and prefix with `0` when
there is neither `-` nor a precision.

* `intField_eq_c23`: a conversion prints what C23 asks and adds its length to `ret`, except for
  `#o` of a zero with precision 0;
* `vfprintf_alt_octal_zero`: there `__vfprintf` prints no digit (`%#.0o` of a zero is empty and
  `%#5.0o` five blanks) where C23 prints `0`: the `#` rule for `o` is inside the branch of `number`
  that a zero with precision 0 skips.
-/

set_option autoImplicit false
set_option relaxedAutoImplicit false

namespace Bionic.Stdio.PrintfC23

open Bionic.Stdio.PrintfInt
open Bionic.Stdio.PrintfArgs (intMax toDigits_scan)
open Bionic.Lib.Decimal (NotDigitHead)

/-- The width of the type the length modifier selects on LP64 (`j`, `ll`, `l`, `t`, `z`: 64 bits;
`h`: 16; `hh`: 8; none: `int`), with the flags tested in the order of `SARG()` and `UARG()`. -/
def typeWidth (flags : Flags) : ℕ :=
  if flags.maxInt || flags.llongInt || flags.longInt || flags.ptrInt || flags.sizeInt then 64
  else if flags.shortInt then 16
  else if flags.charInt then 8
  else 32

/-- The value C prints: the argument converted to the selected type, signed for `d` and `i`. -/
def c23Value (flags : Flags) (signed : Bool) (v : ℤ) : ℤ :=
  if signed then toSigned (typeWidth flags) v else toUnsigned (typeWidth flags) v

/-- The digits of a magnitude as C asks for them: at least `prec` digits (1 without a precision),
none for a zero with precision 0; `#` with `o` raises the precision just enough for the first digit
to be `0`. -/
def c23Digits (base : Base) (upper alt : Bool) (mag : ℕ) (prec : Option ℕ) : List Char :=
  let p := prec.getD 1
  let ds := if mag = 0 ∧ p = 0 then []
    else (Nat.toDigits base.radix mag).map fun c ↦ if upper then c.toUpper else c
  let ds := List.replicate (p - ds.length) '0' ++ ds
  if base = .oct ∧ alt ∧ ds.head? ≠ some '0' then '0' :: ds else ds

/-- One integer conversion as C23 7.23.6.1 describes it, for the flags, width and precision in
`conv` (its `sign` is the `+` or space flag, `+` having overridden space): the sign of a signed
conversion, `0x` (`0X`, `0b`, `0B`) before a nonzero value with `#`, the digits, and blanks to the
width on the left, or on the right with `-`, or zeros after the sign and prefix with `0` when there
is neither `-` nor a precision. -/
def c23IntField (conv : Conv) (ic : IntConv) (v : ℤ) : List Char :=
  let value := c23Value conv.flags ic.signed v
  let prec : Option ℕ := if conv.prec < 0 then none else some conv.prec.toNat
  let sign : List Char := if value < 0 then ['-']
    else if ic.signed ∧ conv.sign ≠ '\x00' then [conv.sign] else []
  let pfx : List Char := match ic.oxLetter with
    | some x => if conv.flags.alt ∧ value ≠ 0 then ['0', x] else []
    | none => []
  let digits := c23Digits ic.base ic.upper conv.flags.alt value.natAbs prec
  let fill := conv.width.toNat - (sign.length + pfx.length + digits.length)
  if conv.flags.ladjust then sign ++ pfx ++ digits ++ List.replicate fill ' '
  else if conv.flags.zeropad ∧ prec = none then sign ++ pfx ++ List.replicate fill '0' ++ digits
  else List.replicate fill ' ' ++ sign ++ pfx ++ digits

section Value

theorem typeWidth_le (flags : Flags) : typeWidth flags ≤ 64 := by
  unfold typeWidth
  split_ifs <;> omega

theorem typeWidth_pos (flags : Flags) : 0 < typeWidth flags := by
  unfold typeWidth
  split_ifs <;> omega

/-- `SARG()` reads the argument as the selected type: an `int` narrowed to `short` or `char` is
the argument narrowed directly. -/
theorem sarg_eq (flags : Flags) (v : ℤ) : sarg flags v = toSigned (typeWidth flags) v := by
  have hnarrow : ∀ k, k ≤ 32 → toSigned k (toSigned 32 v) = toSigned k v := fun k hk ↦
    toSigned_congr (emod_toSigned_of_le hk v)
  unfold sarg typeWidth
  split_ifs <;> simp_all

theorem uarg_eq (flags : Flags) (v : ℤ) : uarg flags v = toUnsigned (typeWidth flags) v := by
  have hnarrow : ∀ k, k ≤ 32 → toUnsigned k (toSigned 32 v) = toUnsigned k v := fun k hk ↦
    toUnsigned_congr (emod_toSigned_of_le hk v)
  unfold uarg typeWidth
  split_ifs <;> simp_all

theorem sarg_mem (flags : Flags) (v : ℤ) : -2 ^ 63 ≤ sarg flags v ∧ sarg flags v < 2 ^ 63 := by
  have hpow : (2 : ℤ) ^ (typeWidth flags - 1) ≤ 2 ^ 63 :=
    pow_le_pow_right₀ (by norm_num) (by have := typeWidth_le flags; omega)
  have hmem := toSigned_mem (typeWidth_pos flags) v
  rw [sarg_eq]
  omega

theorem convValue_eq (flags : Flags) (signed : Bool) (sign : Char) (v : ℤ) :
    convValue flags signed sign v =
      ((c23Value flags signed v).natAbs,
        if c23Value flags signed v < 0 then '-' else if signed then sign else '\x00') := by
  cases signed
  · simp [convValue, c23Value, uarg_eq]
  · -- `intmax_t` through `uintmax_t` and back
    have hmem := sarg_mem flags v
    have hback : toSigned 64 (toUnsigned 64 (sarg flags v) : ℤ) = sarg flags v := by
      have hnonneg : 0 ≤ sarg flags v % 2 ^ 64 := Int.emod_nonneg _ (by norm_num)
      rw [toUnsigned, Int.toNat_of_nonneg hnonneg, toSigned_congr (Int.emod_emod _ _),
        toSigned_of_mem (by norm_num) (by omega) (by omega)]
    simp only [convValue, c23Value, if_true, hback, ← sarg_eq]
    split_ifs with hneg
    · -- a negative value: `_umax = -_umax`
      have hmod : sarg flags v % 2 ^ 64 = sarg flags v + 2 ^ 64 := by
        rw [← Int.add_emod_right, Int.emod_eq_of_lt (by omega) (by omega)]
      simp only [toUnsigned, hmod, Prod.mk.injEq, and_true]
      omega
    · have hmod : sarg flags v % 2 ^ 64 = sarg flags v := Int.emod_eq_of_lt (by omega) (by omega)
      simp only [toUnsigned, hmod, Prod.mk.injEq, and_true]
      omega

end Value

section Digits

/-- `#` for `o` before the precision's zeros or after them: either way a `0` is added only where
the digits do not already start with one. -/
theorem replicate_altZero (base : Base) (alt : Bool) (ds : List Char) (n : ℕ) :
    List.replicate (n - (if base = .oct ∧ alt ∧ ds.head? ≠ some '0' then '0' :: ds else ds).length)
        '0' ++ (if base = .oct ∧ alt ∧ ds.head? ≠ some '0' then '0' :: ds else ds) =
      if base = .oct ∧ alt ∧ (List.replicate (n - ds.length) '0' ++ ds).head? ≠ some '0' then
        '0' :: (List.replicate (n - ds.length) '0' ++ ds)
      else List.replicate (n - ds.length) '0' ++ ds := by
  by_cases hc : base = .oct ∧ alt = true
  · obtain ⟨hoct, halt⟩ := hc
    by_cases hd : ds.head? = some '0'
    · -- the digits start with `0` already, and so do the zeros before them
      have hz : (List.replicate (n - ds.length) '0' ++ ds).head? = some '0' := by
        cases n - ds.length <;> simp [hd, List.replicate_succ]
      simp [hoct, halt, hd, hz]
    · by_cases hn : n ≤ ds.length
      · have hzero : n - ds.length = 0 := by omega
        have hzero' : n - (ds.length + 1) = 0 := by omega
        simp [hoct, halt, hd, hzero, hzero']
      · -- the precision's zeros give the first `0`, one of them standing for `#`
        obtain ⟨k, hk⟩ : ∃ k, n - ds.length = k + 1 := ⟨n - ds.length - 1, by omega⟩
        have hk' : n - (ds.length + 1) = k := by omega
        have hhead : (List.replicate (k + 1) '0' ++ ds).head? = some '0' := by
          simp [List.replicate_succ]
        rw [if_pos ⟨hoct, halt, hd⟩, List.length_cons, hk', hk, if_neg (fun h ↦ h.2.2 hhead),
          List.replicate_succ', List.append_assoc, List.singleton_append]
  · have hc' : ¬(base = .oct ∧ alt = true ∧ ds.head? ≠ some '0') := fun h ↦ hc ⟨h.1, h.2.1⟩
    have hc'' : ∀ z : List Char, ¬(base = .oct ∧ alt = true ∧ z.head? ≠ some '0') :=
      fun _ h ↦ hc ⟨h.1, h.2.1⟩
    rw [if_neg hc', if_neg (hc'' _)]

/-- The precision's zeros and `number`'s digits are the digits C asks for, except for `#o` of a
zero with precision 0. -/
theorem pad_numberDigits (base : Base) (upper alt : Bool) (mag : ℕ) (prec : ℤ)
    (hcorner : ¬(base = .oct ∧ alt = true ∧ mag = 0 ∧ prec = 0)) :
    pad (prec - (numberDigits base upper alt mag prec).length) '0' ++
        numberDigits base upper alt mag prec =
      c23Digits base upper alt mag (if prec < 0 then none else some prec.toNat) := by
  have hlen : 0 < ((Nat.toDigits base.radix mag).map
      fun c ↦ if upper then c.toUpper else c).length := by
    rw [List.length_map]
    exact Nat.length_toDigits_pos
  by_cases hp : prec < 0
  · -- no precision: the digits as they are, and no zeros before them
    have hpad : ∀ k : ℕ, pad (prec - k) '0' = [] := fun k ↦ by
      simp only [pad, List.replicate_eq_nil_iff]
      omega
    have hone : 1 - ((Nat.toDigits base.radix mag).map
        fun c ↦ if upper then c.toUpper else c).length = 0 := by omega
    simp only [numberDigits, c23Digits, if_pos hp, Option.getD_none, hpad, List.nil_append,
      one_ne_zero, and_false, if_false, hone, List.replicate_zero]
    rw [if_pos (Or.inr (by omega))]
  · obtain ⟨n, rfl⟩ : ∃ n : ℕ, prec = n := ⟨prec.toNat, by omega⟩
    by_cases hz : mag = 0 ∧ n = 0
    · -- a zero with precision 0: no digits
      obtain ⟨rfl, rfl⟩ := hz
      have hnot : ¬(base = .oct ∧ alt = true) := fun h ↦ hcorner ⟨h.1, h.2, rfl, rfl⟩
      cases alt <;> simp_all [numberDigits, c23Digits, pad]
    · have hdig : mag ≠ 0 ∨ (n : ℤ) ≠ 0 := by omega
      have hpad : ∀ k : ℕ, pad ((n : ℤ) - k) '0' = List.replicate (n - k) '0' := fun k ↦ by
        simp only [pad]
        congr 1
        omega
      simp only [numberDigits, c23Digits, if_pos hdig, hpad, if_neg hp, Int.toNat_natCast,
        Option.getD_some, if_neg hz]
      exact replicate_altZero base alt _ n

end Digits

section Field

variable (conv : Conv) (ic : IntConv) (v : ℤ)

theorem sign_eq_c23 :
    (if (if c23Value conv.flags ic.signed v < 0 then '-'
          else if ic.signed then conv.sign else '\x00') ≠ '\x00' then
        [if c23Value conv.flags ic.signed v < 0 then '-'
          else if ic.signed then conv.sign else '\x00']
      else []) =
      if c23Value conv.flags ic.signed v < 0 then ['-']
      else if ic.signed ∧ conv.sign ≠ '\x00' then [conv.sign] else [] := by
  split_ifs <;> simp_all

theorem prefix_eq_c23 :
    ((if conv.flags.alt ∧ (c23Value conv.flags ic.signed v).natAbs ≠ 0 then ic.oxLetter
        else none).elim [] fun x ↦ ['0', x]) =
      match ic.oxLetter with
      | some x => if conv.flags.alt ∧ c23Value conv.flags ic.signed v ≠ 0 then ['0', x] else []
      | none => [] := by
  cases ic.oxLetter <;> split_ifs <;> simp_all

/-- Outside `#o` of a zero with precision 0, a conversion prints what C23 asks and adds its length
to `ret`. -/
theorem intField_eq_c23
    (hcorner : ¬(ic.base = .oct ∧ conv.flags.alt = true ∧ c23Value conv.flags ic.signed v = 0 ∧
      conv.prec = 0)) :
    intField conv ic v = (c23IntField conv ic v, ((c23IntField conv ic v).length : ℤ)) := by
  have hdigits := pad_numberDigits ic.base ic.upper conv.flags.alt
    (c23Value conv.flags ic.signed v).natAbs conv.prec (by
      rintro ⟨hoct, halt, hzero, hprec⟩
      exact hcorner ⟨hoct, halt, Int.natAbs_eq_zero.mp hzero, hprec⟩)
  have hfst : (intField conv ic v).1 = c23IntField conv ic v := by
    unfold intField c23IntField
    rw [convValue_eq]
    dsimp only
    rw [convField_fst, hdigits]
    dsimp only
    rw [sign_eq_c23, prefix_eq_c23]
    have hfill : ∀ n : ℕ, (conv.width - n).toNat = conv.width.toNat - n := fun n ↦ by omega
    -- a precision turns `0` off, as C asks
    by_cases hp : conv.prec < 0
    · simp only [if_neg (not_le.mpr hp), if_pos hp, and_true, List.length_append, List.append_assoc,
        hfill]
    · simp only [if_pos (not_lt.mp hp), if_neg hp, reduceCtorEq, and_false, if_false,
        Bool.false_eq_true, List.length_append, List.append_assoc, hfill]
  refine Prod.ext hfst ?_
  rw [← length_intField, hfst]

theorem intField_eq_c23_plus :
    ¬(Base.dec = .oct ∧ ({ sign := '+' } : Conv).flags.alt = true ∧
        c23Value ({ sign := '+' } : Conv).flags true 7 = 0 ∧ ({ sign := '+' } : Conv).prec = 0) ∧
      intField { sign := '+' } ⟨.dec, true, none, false, false⟩ 7 =
        (c23IntField { sign := '+' } ⟨.dec, true, none, false, false⟩ 7,
          ((c23IntField { sign := '+' } ⟨.dec, true, none, false, false⟩ 7).length : ℤ)) :=
  ⟨by decide, intField_eq_c23 _ _ _ (by decide)⟩

/-- `#o` of a zero with precision 0: `__vfprintf` prints the width in blanks and no digit, where C
asks for a `0`. -/
theorem intField_alt_octal_zero (hoct : ic.base = .oct) (hunsigned : ic.signed = false)
    (halt : conv.flags.alt = true) (hprec : conv.prec = 0)
    (hzero : c23Value conv.flags ic.signed v = 0) :
    intField conv ic v = (List.replicate conv.width.toNat ' ', max conv.width 0) ∧
      c23IntField conv ic v =
        if conv.flags.ladjust then '0' :: List.replicate (conv.width.toNat - 1) ' '
        else List.replicate (conv.width.toNat - 1) ' ' ++ ['0'] := by
  constructor
  · unfold intField
    rw [convValue_eq, hzero, hunsigned]
    simp only [convField, numberDigits, hoct, halt, hprec]
    cases conv.flags.ladjust <;> simp [pad]
  · rw [hunsigned] at hzero
    unfold c23IntField
    cases ic.oxLetter <;> simp [hzero, hunsigned, hoct, halt, hprec, c23Digits]

end Field

section Corner

variable (args : ℕ → ℤ)

/-- `%#.0o` of a zero prints nothing and returns 0, and `%#w.0o` prints `w` blanks, where C23
prints a `0` (after `w - 1` blanks). -/
theorem vfprintf_alt_octal_zero (hzero : args 0 % 2 ^ 32 = 0) (w : ℕ) (hw : w ≤ intMax) :
    vfprintf args (['%', '#'] ++ (if w = 0 then [] else Nat.toDigits 10 w) ++ ['.', '0', 'o']) =
        .done (List.replicate w ' ') w ∧
      c23IntField { flags := { alt := true }, width := w, prec := 0 }
          ⟨.oct, false, none, false, false⟩ (args 0) =
        List.replicate (w - 1) ' ' ++ ['0'] := by
  have hvalue : c23Value { alt := true } false (args 0) = 0 := by
    simp [c23Value, typeWidth, toUnsigned, show args 0 % 4294967296 = 0 from hzero]
  obtain ⟨hcode, hc23⟩ := intField_alt_octal_zero { flags := { alt := true }, width := w, prec := 0 }
    ⟨.oct, false, none, false, false⟩ (args 0) rfl rfl rfl rfl hvalue
  refine ⟨?_, by simpa using hc23⟩
  -- `.0o` after the width
  have htail : vfprintfLoop args (.spec { flags := { alt := true }, width := w }) ['.', '0', 'o']
      { out := [], ret := 0, nextarg := 0 } = .done (List.replicate w ' ') w := by
    have hw' : ¬(intMax : ℤ) < w := by omega
    have hfield : intField { flags := { alt := true }, width := w, prec := 0 }
        ⟨.oct, false, none, false, false⟩ (args 0) = (List.replicate w ' ', (w : ℤ)) := by
      simpa using hcode
    simp [vfprintfLoop, vfprintfLoop_text, PrintfArgs.readNumber, PrintfArgs.appendDigit, hfield,
      emit, intConv, hw']
  -- `%` and `#`
  have hstart : ∀ rest, vfprintf args ('%' :: '#' :: rest) =
      vfprintfLoop args (.spec { flags := { alt := true } }) rest
        { out := [], ret := 0, nextarg := 0 } := fun rest ↦ by
    simp [vfprintf, vfprintfLoop_text, textChar, vfprintfLoop.eq_4]
  rcases Nat.eq_zero_or_pos w with rfl | hpos
  · simpa [hstart] using htail
  · -- the width
    have hrest : NotDigitHead ['.', '0', 'o'] := fun d hd ↦ by
      simp only [List.head?_cons, Option.mem_def, Option.some.injEq] at hd
      subst hd
      decide
    obtain ⟨c, cs, hcs, hc, hread, hdrop⟩ := toDigits_scan hpos hw hrest
    simp only [if_neg (Nat.pos_iff_ne_zero.mp hpos), hcs, List.cons_append, List.nil_append]
    rw [hstart, vfprintfLoop_width args hc hread (by rw [hdrop]; decide), hdrop]
    exact htail

theorem vfprintf_alt_octal_zero_no_width :
    vfprintf (fun _ ↦ 0) (['%', '#'] ++ (if 0 = 0 then [] else Nat.toDigits 10 0) ++
        ['.', '0', 'o']) = .done (List.replicate 0 ' ') 0 ∧
      c23IntField { flags := { alt := true }, width := (0 : ℕ), prec := 0 }
          ⟨.oct, false, none, false, false⟩ 0 =
        List.replicate (0 - 1) ' ' ++ ['0'] :=
  vfprintf_alt_octal_zero (fun _ ↦ 0) (by decide) 0 (by decide)

end Corner

end Bionic.Stdio.PrintfC23
