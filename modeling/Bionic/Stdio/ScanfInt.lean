import Bionic.Stdlib.Strtol

/-!
# The integer conversions of `scanf` and `wscanf`

The `CT_INT` case of `__svfscanf` (vfscanf.cpp) and of `__vfwscanf` (vfwscanf.cpp): a scanner
that copies the characters that may still belong to a number into `buf`, gives back a final
`0x` or `0b` prefix letter, and hands the text to `strtoimax`/`strtoumax` (`wcstoimax`/
`wcstoumax`), whose result it stores through the argument.

The scanner is one switch over the character with six flags (`scanChar`), run for at most
`width` characters (`scanLoop`). The two files scan alike; they differ in how they bound the
width (`narrowWidth`, `wideWidth`, equal on every `size_t`) and in the store: the narrow one calls
`strtoumax` for the unsigned conversions, the wide one calls `wcstoimax` for them.

Every run appends to the buffer a prefix of the input no longer than the width
(`scanLoop_taken`), so the text stays within the 512 characters the 513-entry buffer leaves
before its NUL (`scanInt_length_le`). A run of digits of the conversion's base is taken whole
(`scanLoop_digits`, `scanInt_digits`).

C23 (7.23.6.2) makes `%b` an unsigned conversion, like `%o`, `%u` and `%x`. The narrow scanner
does not set `UNSIGNED` for `%b`, so a binary numeral above `INTMAX_MAX` is stored as
`INTMAX_MAX`; the wide scanner converts `%u` with `wcstoimax`, with the same result for a decimal
one (`scanf_unsigned_conversions_saturate`).
-/

set_option autoImplicit false
set_option relaxedAutoImplicit false

namespace Bionic.Stdio.ScanfInt

open Bionic.Lib.Horner Bionic.Stdlib.Strtol

/-- The flags of the scanner: `SIGNOK`, `NDIGITS`, `NZDIGITS`, `PFXOK`, `PFBOK`, `HAVESIGN`. -/
structure ScanFlags where
  signOk : Bool
  nDigits : Bool
  nzDigits : Bool
  pfxOk : Bool
  pfbOk : Bool
  haveSign : Bool
  deriving DecidableEq, Repr

/-- The cases `'1'` to `'9'`, `'A'` to `'F'` and `'a'` to `'f'` of the switch (`'b'` and `'B'`
fall through to them). -/
def isCaseDigit (c : ℤ) : Bool := (49 ≤ c && c ≤ 57) || (65 ≤ c && c ≤ 70) || (97 ≤ c && c ≤ 102)

/-- `p == buf + 1 + !!(flags & HAVESIGN)`: the prefix letter is the second character after the
sign. -/
def prefixPos (fl : ScanFlags) (len : ℕ) : Bool := len == 1 + (if fl.haveSign then 1 else 0)

/-- The switch on one character `c`, with `len = p - buf` characters taken: the base after it,
and the flags after it when `c` is taken (`goto ok`), `none` at `break`. -/
def scanChar (base : ℤ) (fl : ScanFlags) (len : ℕ) (c : ℤ) : ℤ × Option ScanFlags :=
  if c = 48 then
    -- `'0'`: for `%i` the first zero makes the base 8 and allows both prefixes
    let fl := if base = 0 then { fl with pfbOk := true, pfxOk := true } else fl
    (if base = 0 then 8 else base,
      some (if fl.nzDigits then { fl with signOk := false, nzDigits := false, nDigits := false }
        else { fl with signOk := false, pfbOk := false, pfxOk := false, nDigits := false }))
  else if (c = 98 ∨ c = 66) ∧ fl.pfbOk ∧ prefixPos fl len then (2, some { fl with pfbOk := false })
  else if isCaseDigit c then
    let base := if base = 0 then 10 else base
    if base ≠ 16 ∧ base ≤ c - 48 then (base, none)
    else (base, some { fl with signOk := false, pfbOk := false, pfxOk := false, nDigits := false })
  else if c = 43 ∨ c = 45 then
    (base, if fl.signOk then some { fl with signOk := false, haveSign := true } else none)
  else if (c = 120 ∨ c = 88) ∧ fl.pfxOk ∧ prefixPos fl len then (16, some { fl with pfxOk := false })
  else (base, none)

/-- `for (p = buf; width; width--)` over the input, for at most `width` characters: the base and
flags at the end, and the text taken. The end of the input (`__srefill` failing, or `WEOF`) ends
the loop. -/
def scanLoop : ℕ → ℤ → ScanFlags → List ℤ → List ℤ → ℤ × ScanFlags × List ℤ
  | 0, base, fl, buf, _ => (base, fl, buf)
  | _ + 1, base, fl, buf, [] => (base, fl, buf)
  | width + 1, base, fl, buf, c :: rest =>
    match scanChar base fl buf.length c with
    | (base, none) => (base, fl, buf)
    | (base, some fl) => scanLoop width base fl (buf ++ [c]) rest

/-- The narrow bound: `if (--width > sizeof(buf) - 2) width = sizeof(buf) - 2; width++;` on a
`size_t`, with `BUF = 513`; a width of 0 wraps around and becomes 512. -/
def narrowWidth (width : ℕ) : ℕ :=
  let w := (width + 2 ^ 64 - 1) % 2 ^ 64
  (if 511 < w then 511 else w) + 1

/-- The wide bound: `if (width == 0 || width > BUF - 1) width = BUF - 1`. -/
def wideWidth (width : ℕ) : ℕ := if width = 0 ∨ 512 < width then 512 else width

/-- After the loop: a match failure (`none`) when no digit was taken, else the text without a
final prefix letter and the base for the conversion. -/
def scanInt (base : ℤ) (fl : ScanFlags) (width : ℕ) (input : List ℤ) : Option (List ℤ × ℤ) :=
  let (base, fl, buf) := scanLoop width base fl [] input
  if fl.nDigits then none
  else
    let c := buf.getLastD 0
    if (base = 2 ∧ (c = 98 ∨ c = 66)) ∨ c = 120 ∨ c = 88 then some (buf.dropLast, base)
    else some (buf, base)

/-- The integer conversions. -/
inductive Conv
  | b
  | d
  | i
  | o
  | u
  | x
  | p
  deriving DecidableEq, Repr

/-- The base each conversion sets. -/
def Conv.base : Conv → ℤ
  | .b => 2
  | .d => 10
  | .i => 0
  | .o => 8
  | .u => 10
  | .x => 16
  | .p => 16

/-- `UNSIGNED`, as both files set it: for `o`, `u`, `x`, `X` and `p`. -/
def Conv.unsigned : Conv → Bool
  | .o | .u | .x | .p => true
  | .b | .d | .i => false

/-- The flags at the start of the loop: `SIGNOK | NDIGITS | NZDIGITS`, with `PFBOK` for `b` and
`PFXOK` for `x`, `X` and `p`. -/
def Conv.flags (conv : Conv) : ScanFlags :=
  ⟨true, true, true, conv = .x ∨ conv = .p, conv = .b, false⟩

/-- The object a result is stored in, as its `bits` low bits: `*va_arg(ap, T*) = res` for the
`uintmax_t` result `res`. -/
def storeBits (bits : ℕ) (v : ℤ) : ℕ := (v % 2 ^ bits).toNat

theorem storeBits_of_lt {bits : ℕ} {v : ℤ} (h0 : 0 ≤ v) (h : v < 2 ^ bits) :
    storeBits bits v = v.toNat := by
  rw [storeBits, Int.emod_eq_of_lt h0 h]

/-- The narrow store: `strtoumax` for `UNSIGNED`, else `strtoimax`. -/
def narrowStore (conv : Conv) (bits : ℕ) (text : List ℤ) (base : ℤ) : ℕ :=
  storeBits bits (if conv.unsigned then strtoumax text base else strtoimax text base).value

/-- The wide store: `wcstoimax` for `UNSIGNED`, else `wcstoumax`. -/
def wideStore (conv : Conv) (bits : ℕ) (text : List ℤ) (base : ℤ) : ℕ :=
  storeBits bits (if conv.unsigned then wcstoimax text base else wcstoumax text base).value

/-- `__svfscanf` on one `%[width][length]conv` with a `bits`-bit object, on the input after the
white space: the stored object and the characters consumed, `none` on a match failure. -/
def vfscanfInt (conv : Conv) (bits width : ℕ) (input : List ℤ) : Option (ℕ × ℕ) :=
  (scanInt conv.base conv.flags (narrowWidth width) input).map fun (text, base) ↦
    (narrowStore conv bits text base, text.length)

/-- `__vfwscanf` on the same conversion. -/
def vfwscanfInt (conv : Conv) (bits width : ℕ) (input : List ℤ) : Option (ℕ × ℕ) :=
  (scanInt conv.base conv.flags (wideWidth width) input).map fun (text, base) ↦
    (wideStore conv bits text base, text.length)

/-- C23's store: `(T)strtoimax(text, base)` for `d` and `i`, `(T)strtoumax(text, base)` for the
unsigned conversions, `%b` among them. -/
def c23Store (conv : Conv) (bits : ℕ) (text : List ℤ) (base : ℤ) : ℕ :=
  storeBits bits
    (if conv = .d ∨ conv = .i then strtoimax text base else strtoumax text base).value

/-! ## The text stays in the buffer -/

theorem scanLoop_taken (width : ℕ) (base : ℤ) (fl : ScanFlags) (buf input : List ℤ) :
    ∃ taken, (scanLoop width base fl buf input).2.2 = buf ++ taken ∧ taken <+: input ∧
      taken.length ≤ width := by
  induction width generalizing base fl buf input with
  | zero => exact ⟨[], by simp [scanLoop]⟩
  | succ width ih =>
    cases input with
    | nil => exact ⟨[], by simp [scanLoop]⟩
    | cons c rest =>
      rcases hc : scanChar base fl buf.length c with ⟨base', _ | fl'⟩
      · -- `break`: nothing more is taken
        exact ⟨[], by simp [scanLoop, hc]⟩
      · -- `goto ok`: `c` is taken and the loop goes on with one less
        obtain ⟨taken, heq, hpre, hlen⟩ := ih base' fl' (buf ++ [c]) rest
        refine ⟨c :: taken, ?_, List.cons_prefix_cons.2 ⟨rfl, hpre⟩, by simp; omega⟩
        simp [scanLoop, hc, heq]

theorem text_prefix_of_scanInt {base : ℤ} {fl : ScanFlags} {width : ℕ} {input text : List ℤ} {b : ℤ}
    (h : scanInt base fl width input = some (text, b)) : text <+: input ∧ text.length ≤ width := by
  obtain ⟨taken, heq, hpre, hlen⟩ := scanLoop_taken width base fl [] input
  rcases hrun : scanLoop width base fl [] input with ⟨b', fl', buf⟩
  rw [hrun] at heq
  simp only [List.nil_append] at heq
  subst heq
  simp only [scanInt, hrun] at h
  split_ifs at h <;> cases h
  · exact ⟨( List.dropLast_prefix _).trans hpre, by simp; omega⟩
  · exact ⟨hpre, hlen⟩

theorem narrowWidth_le (width : ℕ) : narrowWidth width ≤ 512 := by
  dsimp only [narrowWidth]
  split_ifs <;> omega

theorem wideWidth_le (width : ℕ) : wideWidth width ≤ 512 := by
  unfold wideWidth
  split_ifs <;> omega

theorem narrowWidth_eq_wideWidth {width : ℕ} (h : width < 2 ^ 64) :
    narrowWidth width = wideWidth width := by
  dsimp only [narrowWidth, wideWidth]
  split_ifs <;> omega

theorem scanInt_length_le (conv : Conv) (bits width : ℕ) (input : List ℤ) :
    (∀ r ∈ vfscanfInt conv bits width input, r.2 ≤ 512) ∧
      ∀ r ∈ vfwscanfInt conv bits width input, r.2 ≤ 512 := by
  constructor
  · intro r hr
    simp only [vfscanfInt, Option.mem_def, Option.map_eq_some_iff] at hr
    obtain ⟨⟨text, base⟩, hscan, rfl⟩ := hr
    exact (text_prefix_of_scanInt hscan).2.trans (narrowWidth_le width)
  · intro r hr
    simp only [vfwscanfInt, Option.mem_def, Option.map_eq_some_iff] at hr
    obtain ⟨⟨text, base⟩, hscan, rfl⟩ := hr
    exact (text_prefix_of_scanInt hscan).2.trans (wideWidth_le width)

/-! ## Numerals are taken whole -/

@[simp] theorem scanLoop_nil (width : ℕ) (base : ℤ) (fl : ScanFlags) (buf : List ℤ) :
    scanLoop width base fl buf [] = (base, fl, buf) := by
  cases width <;> rfl

section Digits

variable {base : ℤ}

theorem scanChar_digit (hbase : base ≠ 0 ∧ base ≠ 16 ∧ base ≤ 10) {c : ℤ}
    (hc : 48 ≤ c ∧ c < 48 + base) (fl : ScanFlags) (len : ℕ) :
    ∃ fl', scanChar base fl len c = (base, some fl') ∧ fl'.nDigits = false := by
  have h98 : c ≠ 98 := by omega
  have h66 : c ≠ 66 := by omega
  by_cases h0 : c = 48
  · -- `'0'`: always taken
    simp only [scanChar, h0, ite_true, hbase.1, ite_false]
    split_ifs <;> exact ⟨_, rfl, rfl⟩
  · -- `'1'` to `'9'`: taken below the base
    have hcase : isCaseDigit c = true := by
      simp only [isCaseDigit, Bool.or_eq_true, Bool.and_eq_true, decide_eq_true_eq]
      omega
    have hlow : ¬(base ≠ 16 ∧ base ≤ c - 48) := by omega
    simp only [scanChar, h0, h98, h66, false_or, false_and, ite_false, hcase, ite_true, hbase.1,
      hlow]
    exact ⟨_, rfl, rfl⟩

/-- The loop takes a run of such digits while the width lasts; after one of them `NDIGITS` is
clear. -/
theorem scanLoop_digits (hbase : base ≠ 0 ∧ base ≠ 16 ∧ base ≤ 10) {ds : List ℤ}
    (hds : ∀ c ∈ ds, 48 ≤ c ∧ c < 48 + base) (rest : List ℤ) :
    ∀ (width : ℕ) (fl : ScanFlags) (buf : List ℤ), ds.length ≤ width →
      ∃ fl', (fl'.nDigits = false ∨ ds = [] ∧ fl' = fl) ∧
        scanLoop width base fl buf (ds ++ rest) =
          scanLoop (width - ds.length) base fl' (buf ++ ds) rest := by
  induction ds with
  | nil => exact fun width fl buf _ ↦ ⟨fl, .inr ⟨rfl, rfl⟩, by simp⟩
  | cons c ds ih =>
    intro width fl buf hw
    obtain ⟨width, rfl⟩ : ∃ w, width = w + 1 := ⟨width - 1, by simp at hw; omega⟩
    obtain ⟨fl₁, hstep, hfl₁⟩ := scanChar_digit hbase (hds c (by simp)) fl buf.length
    obtain ⟨fl', hfl', hrun⟩ :=
      ih (fun d hd ↦ hds d (by simp [hd])) width fl₁ (buf ++ [c]) (by simp at hw; omega)
    refine ⟨fl', .inl (hfl'.elim id fun h ↦ h.2 ▸ hfl₁), ?_⟩
    simp only [List.cons_append, scanLoop, hstep, hrun, List.length_cons, List.append_assoc,
      List.nil_append, Nat.add_sub_add_right]

theorem scanInt_digits (hbase : base ≠ 0 ∧ base ≠ 16 ∧ base ≤ 10) {ds : List ℤ}
    (hds : ∀ c ∈ ds, 48 ≤ c ∧ c < 48 + base) (hne : ds ≠ []) (fl : ScanFlags) {width : ℕ}
    (hw : ds.length ≤ width) : scanInt base fl width ds = some (ds, base) := by
  obtain ⟨fl', hfl', hrun⟩ := scanLoop_digits hbase hds [] width fl [] hw
  have hnd : fl'.nDigits = false := hfl'.elim id fun h ↦ absurd h.1 hne
  have hlast : 48 ≤ ds.getLastD 0 ∧ ds.getLastD 0 < 48 + base := by
    obtain ⟨c, rest, rfl⟩ := List.exists_cons_of_ne_nil hne
    rw [List.getLastD_cons]
    exact hds _ List.getLastD_mem_cons
  rw [List.append_nil] at hrun
  simp only [scanInt, hrun, scanLoop_nil, List.nil_append, hnd, Bool.false_eq_true, ite_false]
  rw [if_neg (by omega)]

end Digits

/-! ## `%b` and the wide `%u` -/

/-- `%jb` on a binary numeral above `INTMAX_MAX` stores `INTMAX_MAX`, and so does the wide
`%ju` on a decimal one; C23, which converts both with `strtoumax`, stores at least `2 ^ 63`. -/
theorem scanf_unsigned_conversions_saturate (bs ds : List ℤ)
    (hbs : ∀ c ∈ bs, 48 ≤ c ∧ c < 50) (hbs₁ : bs ≠ []) (hbs₂ : bs.length ≤ 512)
    (hbig : 2 ^ 63 ≤ hornerFold 2 0 (bs.map (· - 48)))
    (hds : ∀ c ∈ ds, 48 ≤ c ∧ c < 58) (hds₁ : ds ≠ []) (hds₂ : ds.length ≤ 512)
    (hdbig : 2 ^ 63 ≤ hornerFold 10 0 (ds.map (· - 48))) :
    (vfscanfInt .b 64 0 bs = some (2 ^ 63 - 1, bs.length) ∧ 2 ^ 63 ≤ c23Store .b 64 bs 2) ∧
      (vfwscanfInt .u 64 0 ds = some (2 ^ 63 - 1, ds.length) ∧ 2 ^ 63 ≤ c23Store .u 64 ds 10) := by
  have hbs' : ∀ c ∈ bs, 48 ≤ c ∧ c < 48 + 2 := fun c hc ↦ by have := hbs c hc; omega
  have hds' : ∀ c ∈ ds, 48 ≤ c ∧ c < 48 + 10 := fun c hc ↦ by have := hds c hc; omega
  -- both scanners take the whole numeral
  have hnarrow : scanInt Conv.b.base Conv.b.flags (narrowWidth 0) bs = some (bs, 2) :=
    scanInt_digits (by decide) hbs' hbs₁ _ (by rw [show narrowWidth 0 = 512 by decide]; exact hbs₂)
  have hwide : scanInt Conv.u.base Conv.u.flags (wideWidth 0) ds = some (ds, 10) :=
    scanInt_digits (by decide) hds' hds₁ _ (by rw [show wideWidth 0 = 512 by decide]; exact hds₂)
  have hmax : storeBits 64 (2 ^ 63 - 1) = 2 ^ 63 - 1 := by decide
  refine ⟨⟨?_, ?_⟩, ⟨?_, ?_⟩⟩
  · -- `%b` is not `UNSIGNED`: `strtoimax` saturates
    simp only [vfscanfInt, hnarrow, Option.map_some, narrowStore, Conv.unsigned, Bool.false_eq_true,
      ite_false, strtoimax_of_digits_gt ⟨le_rfl, by decide⟩ hbs' hbs₁ hbig, hmax]
  · have hv := strtoumax_of_digits ⟨le_rfl, by decide⟩ hbs' hbs₁
    simp only [c23Store, reduceCtorEq, or_self, ite_false, hv]
    rw [storeBits_of_lt (by omega) (by omega)]
    omega
  · -- the wide `%u` is `UNSIGNED`, which the wide store converts with `wcstoimax`
    have hw : wcstoimax ds 10 = strtoimax ds 10 := rfl
    simp only [vfwscanfInt, hwide, Option.map_some, wideStore, Conv.unsigned, ite_true, hw,
      strtoimax_of_digits_gt ⟨by decide, le_rfl⟩ hds' hds₁ hdbig, hmax]
  · have hv := strtoumax_of_digits ⟨by decide, le_rfl⟩ hds' hds₁
    simp only [c23Store, reduceCtorEq, or_self, ite_false, hv]
    rw [storeBits_of_lt (by omega) (by omega)]
    omega

/-- `sscanf("1000...0", "%jb", &u)` with 63 zeros, and `swscanf(L"18446744073709551615",
L"%ju", &u)`. -/
theorem scanf_unsigned_conversions_saturate_max :
    (vfscanfInt .b 64 0 (49 :: List.replicate 63 48) = some (2 ^ 63 - 1, 64) ∧
        2 ^ 63 ≤ c23Store .b 64 (49 :: List.replicate 63 48) 2) ∧
      (vfwscanfInt .u 64 0 [49, 56, 52, 52, 54, 55, 52, 52, 48, 55, 51, 55, 48, 57, 53, 53, 49, 54,
          49, 53] = some (2 ^ 63 - 1, 20) ∧
        2 ^ 63 ≤ c23Store .u 64 [49, 56, 52, 52, 54, 55, 52, 52, 48, 55, 51, 55, 48, 57, 53, 53, 49,
          54, 49, 53] 10) :=
  scanf_unsigned_conversions_saturate _ _ (by decide) (by simp) (by decide)
    (by
      have hzeros : hornerFold 2 0 (List.replicate 63 (0 : ℤ)) = 0 := by
        simp
      simp only [List.map_cons, List.map_replicate, hornerFold_cons]
      rw [hornerFold_eq_add, show (48 : ℤ) - 48 = 0 by rfl, hzeros]
      simp)
    (by decide) (by simp) (by decide) (by decide)

end Bionic.Stdio.ScanfInt
