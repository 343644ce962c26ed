import Bionic.Iconv.Convert

/-!
# `iconv` from UTF-8

`GetNext` reads UTF-8 with `mbrtoc32` and advances the source by what it returns. On a text of
well-formed characters with no `NUL`, in any destination encoding that can write them and any
mode, `iconv` converts the whole text and writes each character's bytes in the destination
encoding (`iconv_utf8_text`): one iteration of the loop per character (`convertLoop_char`).

`mbrtoc32` returns 0 for `NUL`, so `GetNext` takes no byte for it: the loop writes the
destination's `NUL` again and again until the room is gone and `iconv` fails with `E2BIG`, the
source pointer still at the `NUL` (`iconv_utf8_nul`).

After an ill-formed character `mbrtoc32` returns `(size_t)-1`, and `//IGNORE` steps the source
pointer by that amount: back by one byte (`getNext_ignore_illegal`). At the start of the buffer
the next read is of the byte before it (`iconv_ignore_reads_before`).
-/

set_option autoImplicit false

namespace Bionic.Iconv

open Bionic.Uchar
open Bionic.Lib
open Bionic.Lib.Utf8 (value IsScalar)

/-! ### One character -/

section Step

theorem readBytes_append (pre s : List UInt8) :
    readBytes (pre ++ s) pre.length s.length = .ok s := by
  unfold readBytes
  rw [if_neg (by omega), if_neg (by simp)]
  simp

/-- The converter has taken `pre` from the source and `rest` is left; the conversion state is
initial, and nothing has been skipped or replaced. -/
structure At (pre rest : List UInt8) (c : Conv) : Prop where
  src : c.src = pre.length
  srcBytesLeft : c.srcBytesLeft = rest.length
  ps : c.ps = .initial
  ignored : c.ignored = false
  replacementCount : c.replacementCount = 0

variable {pre rest : List UInt8} {c : Conv} {w : List ℕ}

theorem At.errno {e : ℤ} (hat : At pre rest c) : At pre rest { c with errno := e } :=
  ⟨hat.src, hat.srcBytesLeft, hat.ps, hat.ignored, hat.replacementCount⟩

theorem readNext_char (hw : Utf8.Char w) (hat : At pre (w.map Nat.toUInt8 ++ rest) c) :
    readNext .utf8 (pre ++ (w.map Nat.toUInt8 ++ rest)) c =
      .ok (true, { c with
        wc := (value w).toUInt32
        ps := .initial
        srcBytesUsed := ((if value w = 0 then 0 else w.length : ℕ) : ℤ) }) := by
  have hread : readBytes (pre ++ (w.map Nat.toUInt8 ++ rest)) c.src c.srcBytesLeft.toNat =
      .ok (w.map Nat.toUInt8 ++ rest) := by
    rw [hat.src, hat.srcBytesLeft, Int.toNat_natCast, readBytes_append]
  have hmb := mbrtoc32_char hw (u := []) (by rw [List.nil_append, map_toNat_toUInt8 hw])
    (by simpa using hw.ne_nil) rest
  rw [MbState.ofBytes_nil, List.length_map] at hmb
  simp only [readNext, hread, bind, Except.bind, hat.ps, hmb]
  rfl

theorem getNext_char (cd : IconvT) (hsrc : cd.srcEncoding = .utf8) (hw : Utf8.Char w)
    (hat : At pre (w.map Nat.toUInt8 ++ rest) c) (fuel : ℕ) :
    getNext cd (pre ++ (w.map Nat.toUInt8 ++ rest)) (fuel + 1) c =
      .ok (true, { c with
        errno := 0
        wc := (value w).toUInt32
        ps := .initial
        srcBytesUsed := ((if value w = 0 then 0 else w.length : ℕ) : ℤ) }) := by
  have hok : (0 : ℤ) ≠ eilseq := by decide
  simp only [getNext, hsrc, readNext_char hw hat.errno, bind, Except.bind, Bool.not_true,
    if_neg hok]
  rfl

theorem emit_of_le (h : c.buf.length ≤ c.dstBytesLeft) :
    emit c = (true, { c.advance with
      written := c.written ++ c.buf
      dstBytesLeft := c.dstBytesLeft - c.buf.length }) := by
  rw [emit, if_neg (by omega)]

theorem emit_of_lt (h : c.dstBytesLeft < c.buf.length) :
    emit c = (false, { c with errno := e2big }) := by
  rw [emit, if_pos h]

theorem convert_scalar (cd : IconvT) {u : ℕ} (hu : IsScalar u)
    (hrep : Representable cd.dstEncoding u) (hwc : c.wc = u.toUInt32) (hps : c.ps = .initial)
    (fuel : ℕ) : ∃ wc, convert cd (fuel + 1) c =
      .ok (emit { c with errno := 0, wc := wc, buf := scalarBytes cd.dstEncoding u }) := by
  obtain ⟨wc, hwrite⟩ := writeNext_scalar cd.dstEncoding hu hrep (c := { c with errno := 0 }) hwc hps
  have hok : (0 : ℤ) ≠ eilseq := by decide
  refine ⟨wc, ?_⟩
  simp only [convert, hwrite, if_neg hok]

/-- The bytes `mbrtoc32` reports for a well-formed character: all of them, or none for `NUL`. -/
def used (w : List ℕ) : ℕ := if value w = 0 then 0 else w.length

/-- One iteration of the loop on a well-formed character whose bytes in the destination encoding
fit: they are written, and the source moves past the bytes `mbrtoc32` reported. -/
theorem convertLoop_char (cd : IconvT) (hsrc : cd.srcEncoding = .utf8) (hw : Utf8.Char w)
    (hrep : Representable cd.dstEncoding (value w))
    (hat : At pre (w.map Nat.toUInt8 ++ rest) c)
    (hroom : (scalarBytes cd.dstEncoding (value w)).length ≤ c.dstBytesLeft) (fuel : ℕ) :
    ∃ c', convertLoop cd (pre ++ (w.map Nat.toUInt8 ++ rest)) (fuel + 2) c =
        convertLoop cd (pre ++ (w.map Nat.toUInt8 ++ rest)) (fuel + 1) c' ∧
      At (pre ++ (w.map Nat.toUInt8).take (used w)) ((w.map Nat.toUInt8).drop (used w) ++ rest) c' ∧
      c'.written = c.written ++ scalarBytes cd.dstEncoding (value w) ∧
      c'.dstBytesLeft = c.dstBytesLeft - (scalarBytes cd.dstEncoding (value w)).length := by
  have hlen : 0 < w.length := List.length_pos_iff.2 hw.ne_nil
  have hused : used w ≤ w.length := by
    unfold used
    split <;> omega
  have hleft : 0 < c.srcBytesLeft := by
    rw [hat.srcBytesLeft, List.length_append, List.length_map]
    omega
  let c₁ : Conv := { c with
    errno := 0
    wc := (value w).toUInt32
    ps := .initial
    srcBytesUsed := ((if value w = 0 then 0 else w.length : ℕ) : ℤ) }
  obtain ⟨wc, hconv⟩ := convert_scalar cd (c := c₁) hw.isScalar hrep rfl rfl fuel
  let c₂ : Conv := { c₁ with errno := 0, wc := wc, buf := scalarBytes cd.dstEncoding (value w) }
  rw [emit_of_le (c := c₂) hroom] at hconv
  refine ⟨{ c₂.advance with
    written := c₂.written ++ c₂.buf
    dstBytesLeft := c₂.dstBytesLeft - c₂.buf.length }, ?_, ?_, rfl, rfl⟩
  · simp only [c₁] at hconv
    rw [convertLoop, if_pos hleft, getNext_char cd hsrc hw hat]
    simp only [bind, Except.bind, Bool.not_true, Bool.false_eq_true, ↓reduceIte, hconv]
  · -- the pointer and the count both move by what `mbrtoc32` returned
    have hsrc' : c.src + (used w : ℤ) = ((pre ++ (w.map Nat.toUInt8).take (used w)).length : ℤ) := by
      rw [hat.src, List.length_append, List.length_take, List.length_map, Nat.min_eq_left hused]
      push_cast
      rfl
    have hleft' : c.srcBytesLeft - (used w : ℤ) =
        (((w.map Nat.toUInt8).drop (used w) ++ rest).length : ℤ) := by
      rw [hat.srcBytesLeft, List.length_append, List.length_append, List.length_drop,
        List.length_map]
      push_cast [Nat.cast_sub hused]
      ring
    exact ⟨hsrc', hleft', rfl, hat.ignored, hat.replacementCount⟩

/-- One iteration of the loop on a well-formed character whose bytes do not fit: `Emit` fails with
`E2BIG`, and no pointer moves. -/
theorem convertLoop_char_full (cd : IconvT) (hsrc : cd.srcEncoding = .utf8) (hw : Utf8.Char w)
    (hrep : Representable cd.dstEncoding (value w))
    (hat : At pre (w.map Nat.toUInt8 ++ rest) c)
    (hroom : c.dstBytesLeft < (scalarBytes cd.dstEncoding (value w)).length) (fuel : ℕ) :
    ∃ c', convertLoop cd (pre ++ (w.map Nat.toUInt8 ++ rest)) (fuel + 2) c = .ok (-1, c') ∧
      c'.errno = e2big ∧ c'.pointers = c.pointers := by
  have hlen : 0 < w.length := List.length_pos_iff.2 hw.ne_nil
  have hleft : 0 < c.srcBytesLeft := by
    rw [hat.srcBytesLeft, List.length_append, List.length_map]
    omega
  let c₁ : Conv := { c with
    errno := 0
    wc := (value w).toUInt32
    ps := .initial
    srcBytesUsed := ((if value w = 0 then 0 else w.length : ℕ) : ℤ) }
  obtain ⟨wc, hconv⟩ := convert_scalar cd (c := c₁) hw.isScalar hrep rfl rfl fuel
  let c₂ : Conv := { c₁ with errno := 0, wc := wc, buf := scalarBytes cd.dstEncoding (value w) }
  rw [emit_of_lt (c := c₂) hroom] at hconv
  refine ⟨{ c₂ with errno := e2big }, ?_, rfl, rfl⟩
  simp only [c₁] at hconv
  rw [convertLoop, if_pos hleft, getNext_char cd hsrc hw hat]
  simp only [bind, Except.bind, Bool.not_true, Bool.false_eq_true, ↓reduceIte, hconv]
  rfl

end Step

/-! ### A well-formed text -/

section Text

variable {pre : List UInt8} {c : Conv}

/-- The bytes a text of characters is written in. -/
def textBytes (dst : Encoding) (ws : List (List ℕ)) : List UInt8 :=
  ws.flatMap fun w ↦ scalarBytes dst (value w)

theorem convertLoop_text (cd : IconvT) (hsrc : cd.srcEncoding = .utf8) (ws : List (List ℕ))
    (hws : ∀ w ∈ ws, Utf8.Char w ∧ value w ≠ 0 ∧ Representable cd.dstEncoding (value w))
    (hat : At pre ((ws.flatten).map Nat.toUInt8) c)
    (hroom : (textBytes cd.dstEncoding ws).length ≤ c.dstBytesLeft)
    (fuel : ℕ) (hfuel : ws.length < fuel) :
    ∃ c', convertLoop cd (pre ++ (ws.flatten).map Nat.toUInt8) fuel c = .ok (0, c') ∧
      c'.srcBytesLeft = 0 ∧ c'.written = c.written ++ textBytes cd.dstEncoding ws := by
  induction ws generalizing pre c fuel with
  | nil =>
    -- nothing left: `Done` returns 0, as nothing was skipped or replaced
    obtain ⟨fuel, rfl⟩ : ∃ f, fuel = f + 1 := ⟨fuel - 1, by simp at hfuel; omega⟩
    have hleft : c.srcBytesLeft = 0 := by simpa using hat.srcBytesLeft
    refine ⟨c, ?_, hleft, by simp [textBytes]⟩
    rw [convertLoop, if_neg (by omega), done]
    split
    · rw [hat.replacementCount]
      rfl
    · rw [if_neg (by simp [hat.ignored])]
  | cons w ws ih =>
    obtain ⟨fuel, rfl⟩ : ∃ f, fuel = f + 2 := ⟨fuel - 2, by simp at hfuel; omega⟩
    obtain ⟨hw, hw0, hrep⟩ := hws w List.mem_cons_self
    have hroom₁ : (scalarBytes cd.dstEncoding (value w)).length ≤ c.dstBytesLeft := by
      simp only [textBytes, List.flatMap_cons, List.length_append] at hroom
      omega
    rw [List.flatten_cons, List.map_append] at hat ⊢
    obtain ⟨c₁, hstep, hat₁, hwritten₁, hroom₁'⟩ := convertLoop_char cd hsrc hw hrep hat hroom₁ fuel
    -- a character other than `NUL` is taken whole
    have hused : used w = (w.map Nat.toUInt8).length := by
      rw [used, if_neg hw0, List.length_map]
    rw [hused, List.take_length, List.drop_length, List.nil_append] at hat₁
    have hroomRest : (textBytes cd.dstEncoding ws).length ≤ c₁.dstBytesLeft := by
      simp only [textBytes, List.flatMap_cons, List.length_append] at hroom ⊢
      omega
    obtain ⟨c', hrun, hleft, hwritten⟩ :=
      ih (fun v hv ↦ hws v (List.mem_cons_of_mem w hv)) hat₁ hroomRest (fuel + 1)
        (by simp at hfuel; omega)
    refine ⟨c', ?_, hleft, ?_⟩
    · rw [hstep, ← List.append_assoc]
      exact hrun
    · rw [hwritten, hwritten₁, List.append_assoc]
      simp [textBytes]

/-- From UTF-8, in every mode and to every encoding that can write its characters, `iconv`
converts a text of well-formed characters with no `NUL` whole: it returns 0, leaves no source
byte, and writes each character's bytes in the destination encoding, given the room and the fuel
for one iteration per character. -/
theorem iconv_utf8_text (dst : Encoding) (mode : Mode) (ws : List (List ℕ))
    (hws : ∀ w ∈ ws, Utf8.Char w ∧ value w ≠ 0 ∧ Representable dst (value w))
    (dstSize : ℕ) (hroom : (textBytes dst ws).length ≤ dstSize)
    (fuel : ℕ) (hfuel : ws.length < fuel) :
    ∃ c, iconv ⟨.utf8, dst, mode⟩ ((ws.flatten).map Nat.toUInt8) dstSize fuel = .ok (0, c) ∧
      c.srcBytesLeft = 0 ∧ c.written = textBytes dst ws := by
  have hat : At [] ((ws.flatten).map Nat.toUInt8) (.start ((ws.flatten).map Nat.toUInt8).length dstSize) :=
    ⟨rfl, rfl, rfl, rfl, rfl⟩
  obtain ⟨c, hrun, hleft, hwritten⟩ :=
    convertLoop_text ⟨.utf8, dst, mode⟩ rfl ws hws hat hroom fuel hfuel
  exact ⟨c, hrun, hleft, hwritten⟩

theorem iconv_utf8_text_euro :
    (∀ w ∈ [[0xE2, 0x82, 0xAC]], Utf8.Char w ∧ value w ≠ 0 ∧ Representable .utf16Be (value w)) ∧
      (textBytes .utf16Be [[0xE2, 0x82, 0xAC]]).length ≤ 2 ∧ [[0xE2, 0x82, 0xAC]].length < 2 ∧
      ∃ c, iconv ⟨.utf8, .utf16Be, .error⟩ (([[0xE2, 0x82, 0xAC]] : List (List ℕ)).flatten.map
          Nat.toUInt8) 2 2 = .ok (0, c) ∧
        c.srcBytesLeft = 0 ∧ c.written = textBytes .utf16Be [[0xE2, 0x82, 0xAC]] := by
  have hws : ∀ w ∈ [[0xE2, 0x82, 0xAC]], Utf8.Char w ∧ value w ≠ 0 ∧
      Representable .utf16Be (value w) := by
    intro w hw
    rw [List.mem_singleton] at hw
    subst hw
    exact ⟨.threeE1 (by decide) (by decide) ⟨by decide, by decide⟩ ⟨by decide, by decide⟩,
      by decide, nofun⟩
  exact ⟨hws, by decide, by decide,
    iconv_utf8_text .utf16Be .error [[0xE2, 0x82, 0xAC]] hws 2 (by decide) 2 (by decide)⟩

/-- The euro sign is written in UTF-16BE as its one unit. -/
example : textBytes .utf16Be [[0xE2, 0x82, 0xAC]] = [0x20, 0xAC] := by decide

end Text

/-! ### `NUL` -/

section Nul

variable {pre rest : List UInt8} {c : Conv}

theorem char_nul : Utf8.Char [0] := .one (by decide)

/-- From a `NUL` the loop writes the destination's `NUL` as long as it fits, each time taking no
source byte, and then fails with `E2BIG`. -/
theorem convertLoop_nul (cd : IconvT) (hsrc : cd.srcEncoding = .utf8)
    (hat : At pre (0 :: rest) c) (k r : ℕ) (hr : r < (scalarBytes cd.dstEncoding 0).length)
    (hroom : c.dstBytesLeft = k * (scalarBytes cd.dstEncoding 0).length + r)
    (fuel : ℕ) (hfuel : k + 2 ≤ fuel) :
    ∃ c', convertLoop cd (pre ++ 0 :: rest) fuel c = .ok (-1, c') ∧ c'.errno = e2big ∧
      c'.src = c.src ∧ c'.srcBytesLeft = c.srcBytesLeft ∧
      c'.written = c.written ++ (List.replicate k (scalarBytes cd.dstEncoding 0)).flatten := by
  have hrep : Representable cd.dstEncoding (value [0]) := fun _ ↦ by decide
  have hvalue : value [0] = 0 := rfl
  -- the source as the bytes of the character `NUL` and the rest
  have hsplit : (0 :: rest : List UInt8) = ([0] : List ℕ).map Nat.toUInt8 ++ rest := rfl
  induction k generalizing c fuel with
  | zero =>
    obtain ⟨fuel, rfl⟩ : ∃ f, fuel = f + 2 := ⟨fuel - 2, by omega⟩
    rw [hsplit] at hat ⊢
    obtain ⟨c', hrun, herrno, hptr⟩ := convertLoop_char_full cd hsrc char_nul hrep hat
      (by rw [hvalue]; omega) fuel
    simp only [Conv.pointers, Prod.mk.injEq] at hptr
    obtain ⟨hsrc', hleft', hwritten', -⟩ := hptr
    exact ⟨c', hrun, herrno, hsrc', hleft', by simp [hwritten']⟩
  | succ k ih =>
    obtain ⟨fuel, rfl⟩ : ∃ f, fuel = f + 2 := ⟨fuel - 2, by omega⟩
    rw [Nat.succ_mul] at hroom
    rw [hsplit] at hat
    obtain ⟨c₁, hstep, hat₁, hwritten₁, hroom₁⟩ := convertLoop_char cd hsrc char_nul hrep hat
      (by rw [hvalue]; omega) fuel
    -- `mbrtoc32` reports no byte taken for `NUL`, so the loop stands where it stood
    have hused : used [0] = 0 := rfl
    rw [hused, List.take_zero, List.drop_zero, List.append_nil] at hat₁
    rw [hvalue] at hwritten₁ hroom₁
    obtain ⟨c', hrun, herrno, hsrc', hleft', hwritten'⟩ :=
      ih hat₁ (by omega) (fuel + 1) (by omega)
    refine ⟨c', ?_, herrno, ?_, ?_, ?_⟩
    · rw [← hrun]
      exact hstep
    · rw [hsrc', hat₁.src, hat.src]
    · rw [hleft', hat₁.srcBytesLeft, hat.srcBytesLeft]
    · rw [hwritten', hwritten₁, List.replicate_succ, List.flatten_cons, List.append_assoc]

/-- From UTF-8, to every encoding and in every mode, `iconv` on a text that begins with `NUL`
writes the destination's `NUL` as many times as the room holds, takes no source byte, and fails
with `E2BIG`. -/
theorem iconv_utf8_nul (dst : Encoding) (mode : Mode) (rest : List UInt8) (k r : ℕ)
    (hr : r < (scalarBytes dst 0).length) (fuel : ℕ) (hfuel : k + 2 ≤ fuel) :
    ∃ c, iconv ⟨.utf8, dst, mode⟩ (0 :: rest) (k * (scalarBytes dst 0).length + r) fuel =
        .ok (-1, c) ∧ c.errno = e2big ∧ c.src = 0 ∧ c.srcBytesLeft = rest.length + 1 ∧
      c.written = (List.replicate k (scalarBytes dst 0)).flatten := by
  have hat : At [] (0 :: rest) (.start (0 :: rest).length (k * (scalarBytes dst 0).length + r)) :=
    ⟨rfl, rfl, rfl, rfl, rfl⟩
  obtain ⟨c, hrun, herrno, hsrc, hleft, hwritten⟩ :=
    convertLoop_nul ⟨.utf8, dst, mode⟩ rfl hat k r hr rfl fuel hfuel
  refine ⟨c, hrun, herrno, hsrc, ?_, hwritten⟩
  rw [hleft]
  simp [Conv.start]

theorem iconv_utf8_nul_utf8 :
    0 < (scalarBytes .utf8 0).length ∧ 3 + 2 ≤ 5 ∧
      ∃ c, iconv ⟨.utf8, .utf8, .error⟩ [0] (3 * (scalarBytes .utf8 0).length + 0) 5 =
        .ok (-1, c) ∧ c.errno = e2big ∧ c.src = 0 ∧ c.srcBytesLeft = ([] : List UInt8).length + 1 ∧
      c.written = (List.replicate 3 (scalarBytes .utf8 0)).flatten :=
  ⟨by decide, by decide, iconv_utf8_nul .utf8 .error [] 3 0 (by decide) 5 (by decide)⟩

end Nul

/-! ### `//IGNORE` after an ill-formed character -/

section Ignore

variable {pre : List UInt8} {c : Conv}

/-- Under `//IGNORE`, an ill-formed character at the source pointer makes `GetNext` move the
pointer by the `(size_t)-1` that `mbrtoc32` returned, back by one byte, and read again. -/
theorem getNext_ignore_illegal (cd : IconvT) (hsrc : cd.srcEncoding = .utf8)
    (hmode : cd.mode = .ignore) {s : List UInt8} {ps : MbState} (hat : At pre s c)
    (hbad : mbrtoc32 s .initial = (.illegal eilseq, ps)) (fuel : ℕ) :
    ∃ c', getNext cd (pre ++ s) (fuel + 1) c = getNext cd (pre ++ s) fuel c' ∧
      c'.src = c.src - 1 ∧ c'.srcBytesLeft = c.srcBytesLeft + 1 := by
  have hread : readBytes (pre ++ s) c.src c.srcBytesLeft.toNat = .ok s := by
    rw [hat.src, hat.srcBytesLeft, Int.toNat_natCast, readBytes_append]
  let c₀ : Conv := { c with ps := ps, srcBytesUsed := -1, errno := eilseq }
  refine ⟨{ c₀.advance with ignored := true }, ?_, rfl, ?_⟩
  · simp only [getNext, hsrc, readNext, hread, bind, Except.bind, hat.ps, hbad, hmode]
    rfl
  · simp only [c₀, Conv.advance]
    ring

theorem getNext_before (cd : IconvT) (hsrc : cd.srcEncoding = .utf8) (input : List UInt8)
    (hneg : c.src < 0) (fuel : ℕ) :
    getNext cd input (fuel + 1) c = .error (.readOutside c.src) := by
  simp only [getNext, hsrc, readNext, readBytes, if_pos hneg, bind, Except.bind]

/-- From UTF-8 with `//IGNORE`, to every encoding, `iconv` on a source whose first character is
ill-formed moves the source pointer before the buffer and reads the byte there. -/
theorem iconv_ignore_reads_before (dst : Encoding) (input : List UInt8) (ps : MbState)
    (hbad : mbrtoc32 input .initial = (.illegal eilseq, ps)) (dstSize fuel : ℕ) :
    iconv ⟨.utf8, dst, .ignore⟩ input dstSize (fuel + 3) = .error (.readOutside (-1)) := by
  have hne : input ≠ [] := by
    rintro rfl
    simp [mbrtoc32] at hbad
  have hat : At [] input (.start input.length dstSize) := ⟨rfl, rfl, rfl, rfl, rfl⟩
  obtain ⟨c', hstep, hsrc', -⟩ :=
    getNext_ignore_illegal ⟨.utf8, dst, .ignore⟩ rfl rfl hat hbad (fuel + 1)
  have hbefore := getNext_before ⟨.utf8, dst, .ignore⟩ rfl input
    (show c'.src < 0 by rw [hsrc']; simp [Conv.start]) fuel
  have hleft : (0 : ℤ) < (Conv.start input.length dstSize).srcBytesLeft := by
    simpa [Conv.start] using List.length_pos_iff.2 hne
  rw [List.nil_append] at hstep
  rw [iconv, convertLoop, if_pos hleft, hstep, hbefore, hsrc']
  simp [Conv.start, bind, Except.bind]

theorem iconv_ignore_reads_before_ff :
    mbrtoc32 [0xFF] .initial = (.illegal eilseq, .initial) ∧
      iconv ⟨.utf8, .utf8, .ignore⟩ [0xFF] 4 (0 + 3) = .error (.readOutside (-1)) :=
  ⟨by decide, iconv_ignore_reads_before .utf8 [0xFF] .initial (by decide) 4 0⟩

end Ignore

end Bionic.Iconv
