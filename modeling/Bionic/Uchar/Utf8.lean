import Bionic.Lib.Utf8
import Bionic.Lib.Align
import Bionic.Uchar.Mbstate
import Bionic.Errno

/-!
# `mbrtoc32` and `c32rtomb`

`mbrtoc32` decodes UTF-8 a chunk at a time and keeps in the `mbstate_t` the bytes of a character
it has not finished; `c32rtomb` writes the UTF-8 form of one `char32_t`.

`mbrtoc32` checks each byte only against the length its lead byte announces, and rejects overlong
forms, surrogates and values above `0x10FFFF` once it has a character's last byte. On a text that
is well formed as far as it goes, cut into chunks anywhere, it returns what the decoder of
RFC 3629 returns (`mbrtoc32_feed`). On an ill-formed text it can ask for more bytes where that
decoder refuses (`mbrtoc32_feed_overlong`).

`c32rtomb` writes the shortest form of every code point up to `0x1FFFFF` (`c32rtomb_eq_encode`),
and `mbrtoc32` reads a scalar value back from it (`mbrtoc32_c32rtomb`). The surrogates and the
values above `0x10FFFF` are written as well, and `mbrtoc32` refuses what is written for them
(`c32rtomb_surrogate`).

A call with `s == nullptr` is the call on the one byte `NUL`, and `pc32 == nullptr` only drops
the store; neither is modelled apart.
-/

set_option autoImplicit false

namespace Bionic.Uchar

open Bionic.Lib
open Bionic.Lib.Utf8 (value encode IsScalar Continues Outcome Event feed decodeStep Tail)

/-! ### The model -/

/-- What a call of `mbrtoc32` returns, with what it stores through `pc32` and in `errno`. -/
inductive Mbrtoc32Result where
  /-- The character `c32` is stored and the call returns `ret`: the bytes it took, or 0 for
  `NUL`. -/
  | char (c32 : UInt32) (ret : ℕ)
  /-- `BIONIC_MULTIBYTE_RESULT_INCOMPLETE_SEQUENCE`, `(size_t)-2`. -/
  | incomplete
  /-- `BIONIC_MULTIBYTE_RESULT_ILLEGAL_SEQUENCE`, `(size_t)-1`, with `errno`. -/
  | illegal (errno : ℤ)
  deriving DecidableEq, Repr

/-- The length of a character from its lead byte, the mask of the bits the lead byte carries and
the least value of a character of that length (the `if` chain that sets `length`, `mask` and
`lower_bound`); `none` for a byte that cannot begin a character of two bytes or more. -/
def leadInfo (ch : UInt8) : Option (ℕ × UInt32 × UInt32) :=
  if ch &&& 0xe0 = 0xc0 then some (2, 0x1f, 0x80)
  else if ch &&& 0xf0 = 0xe0 then some (3, 0x0f, 0x800)
  else if ch &&& 0xf8 = 0xf0 then some (4, 0x07, 0x10000)
  else none

/-- The loop that fills in the state: it stores the next `k` bytes of `s` from position `pos`,
and refuses a byte that is not a continuation byte once the state is no longer initial. -/
def fill (state : MbState) (pos : ℕ) : ℕ → List UInt8 → Option MbState
  | 0, _ => some state
  | _ + 1, [] => some state
  | k + 1, b :: s =>
    if !state.isInitial && (b &&& 0xc0) != 0x80 then none
    else fill (state.setByte pos b) (pos + 1) k s

/-- The decoding of the octets held in the state, in chunks of six bits, most significant
first. -/
def assemble (state : MbState) (mask : UInt32) (length : ℕ) : UInt32 :=
  (List.range' 1 (length - 1)).foldl
    (fun c32 i ↦ c32 <<< 6 ||| ((state.getByte i).toUInt32 &&& 0x3f))
    ((state.getByte 0).toUInt32 &&& mask)

/-- `mbrtoc32` on the `n = s.length` bytes of `s`: its result and the state it leaves. -/
def mbrtoc32 (s : List UInt8) (state : MbState) : Mbrtoc32Result × MbState :=
  if state.getByte 3 != 0 then (.illegal einval, .initial)
  else
    match s with
    | [] => (.incomplete, state)
    | ch :: _ =>
      if state.isInitial && (ch &&& ~~~0x7f) == 0 then
        -- the fast path for plain ASCII
        (.char ch.toUInt32 (if ch != 0 then 1 else 0), state)
      else
        let bytesSoFar := state.bytesSoFar
        match leadInfo (if bytesSoFar > 0 then state.getByte 0 else ch) with
        | none => (.illegal eilseq, .initial)
        | some (length, mask, lowerBound) =>
          let bytesWanted := length - bytesSoFar
          match fill state bytesSoFar (min bytesWanted s.length) s with
          | none => (.illegal eilseq, .initial)
          | some state =>
            if min bytesWanted s.length < bytesWanted then (.incomplete, state)
            else
              let c32 := assemble state mask length
              if c32 < lowerBound then (.illegal eilseq, .initial)
              else if (0xd800 ≤ c32 ∧ c32 ≤ 0xdfff) ∨ 0x10ffff < c32 then
                (.illegal eilseq, .initial)
              else (.char c32 (if c32 = 0 then 0 else bytesWanted), .initial)

/-- A call of `mbrtoc32` on a chunk, as a step of `Bionic.Lib.Utf8.feed`. -/
def mbrtoc32Step (state : MbState) (s : List UInt8) : Outcome MbState UInt32 :=
  match mbrtoc32 s state with
  | (.char c32 ret, state) => .char c32 ret state
  | (.incomplete, state) => .incomplete state
  | (.illegal _, state) => .error state

/-- The decoder of RFC 3629 on the octets of a chunk. -/
def referenceStep (p : List ℕ) (s : List UInt8) : Outcome (List ℕ) ℕ :=
  decodeStep p (s.map UInt8.toNat)

/-! ### Tests of bits as ranges of values -/

section Masks

-- the check over all 256 bytes recurses once for each
set_option maxRecDepth 4000

/-- A test of a byte's bits against a mask is a property of its value, checked once for every
byte. -/
theorem and_eq_iff {m v : UInt8} {P : ℕ → Prop} (h : ∀ n < 256, (n &&& m.toNat = v.toNat ↔ P n))
    (b : UInt8) : b &&& m = v ↔ P b.toNat := by
  rw [← UInt8.toNat_inj, UInt8.toNat_and]
  exact h b.toNat b.toNat_lt

variable (b : UInt8)

theorem ascii_iff : b &&& ~~~0x7f = 0 ↔ b.toNat ≤ 0x7F :=
  and_eq_iff (P := fun n ↦ n ≤ 0x7F) (by decide) b

theorem leadTwo_iff : b &&& 0xe0 = 0xc0 ↔ 0xC0 ≤ b.toNat ∧ b.toNat ≤ 0xDF :=
  and_eq_iff (P := fun n ↦ 0xC0 ≤ n ∧ n ≤ 0xDF) (by decide) b

theorem leadThree_iff : b &&& 0xf0 = 0xe0 ↔ 0xE0 ≤ b.toNat ∧ b.toNat ≤ 0xEF :=
  and_eq_iff (P := fun n ↦ 0xE0 ≤ n ∧ n ≤ 0xEF) (by decide) b

theorem leadFour_iff : b &&& 0xf8 = 0xf0 ↔ 0xF0 ≤ b.toNat ∧ b.toNat ≤ 0xF7 :=
  and_eq_iff (P := fun n ↦ 0xF0 ≤ n ∧ n ≤ 0xF7) (by decide) b

theorem tail_iff : b &&& 0xc0 = 0x80 ↔ Tail b.toNat :=
  and_eq_iff (P := fun n ↦ 0x80 ≤ n ∧ n ≤ 0xBF) (by decide) b

theorem leadInfo_two (h : 0xC0 ≤ b.toNat) (h' : b.toNat ≤ 0xDF) :
    leadInfo b = some (2, 0x1f, 0x80) := by
  rw [leadInfo, if_pos ((leadTwo_iff b).2 ⟨h, h'⟩)]

theorem leadInfo_three (h : 0xE0 ≤ b.toNat) (h' : b.toNat ≤ 0xEF) :
    leadInfo b = some (3, 0x0f, 0x800) := by
  rw [leadInfo, if_neg (fun h2 ↦ by have := (leadTwo_iff b).1 h2; omega),
    if_pos ((leadThree_iff b).2 ⟨h, h'⟩)]

theorem leadInfo_four (h : 0xF0 ≤ b.toNat) (h' : b.toNat ≤ 0xF7) :
    leadInfo b = some (4, 0x07, 0x10000) := by
  rw [leadInfo, if_neg (fun h2 ↦ by have := (leadTwo_iff b).1 h2; omega),
    if_neg (fun h3 ↦ by have := (leadThree_iff b).1 h3; omega), if_pos ((leadFour_iff b).2 ⟨h, h'⟩)]

end Masks

/-! ### Assembling the bits of a character -/

section Assemble

theorem lowBits_toNat (b : UInt8) {m : UInt32} (k : ℕ) (hm : m.toNat = 2 ^ k - 1) :
    (b.toUInt32 &&& m).toNat = b.toNat % 2 ^ k := by
  rw [UInt32.toNat_and, UInt8.toNat_toUInt32, hm, Nat.and_two_pow_sub_one_eq_mod]

theorem shiftOr_toNat (x : UInt32) (b : UInt8) (hx : x.toNat < 2 ^ 26) :
    (x <<< 6 ||| (b.toUInt32 &&& 0x3f)).toNat = x.toNat * 64 + b.toNat % 64 := by
  have hlow := lowBits_toNat b 6 (m := 0x3f) rfl
  have hshift : (x <<< 6).toNat = x.toNat <<< 6 := by
    rw [UInt32.toNat_shiftLeft]
    simp only [UInt32.reduceToNat, Nat.reduceMod]
    exact Nat.mod_eq_of_lt (by rw [Nat.shiftLeft_eq]; omega)
  rw [UInt32.toNat_or, hshift, hlow,
    ← Nat.shiftLeft_add_eq_or_of_lt (Nat.mod_lt _ (by norm_num)), Nat.shiftLeft_eq]

variable (a b c d : UInt8)

theorem assemble_two : (assemble (.ofBytes [a, b]) 0x1f 2).toNat = value [a.toNat, b.toNat] := by
  have hlead := lowBits_toNat a 5 (m := 0x1f) rfl
  change ((a.toUInt32 &&& 0x1f) <<< 6 ||| (b.toUInt32 &&& 0x3f)).toNat = _
  rw [shiftOr_toNat _ _ (by omega), hlead, value]
  rfl

theorem assemble_three :
    (assemble (.ofBytes [a, b, c]) 0x0f 3).toNat = value [a.toNat, b.toNat, c.toNat] := by
  have hlead := lowBits_toNat a 4 (m := 0x0f) rfl
  change (((a.toUInt32 &&& 0x0f) <<< 6 ||| (b.toUInt32 &&& 0x3f)) <<< 6 |||
    (c.toUInt32 &&& 0x3f)).toNat = _
  rw [shiftOr_toNat _ _ (by rw [shiftOr_toNat _ _ (by omega)]; omega), shiftOr_toNat _ _ (by omega),
    hlead, value]
  omega

theorem assemble_four :
    (assemble (.ofBytes [a, b, c, d]) 0x07 4).toNat =
      value [a.toNat, b.toNat, c.toNat, d.toNat] := by
  have hlead := lowBits_toNat a 3 (m := 0x07) rfl
  have h2 : ((a.toUInt32 &&& 0x07) <<< 6 ||| (b.toUInt32 &&& 0x3f)).toNat =
      a.toNat % 8 * 64 + b.toNat % 64 := by
    rw [shiftOr_toNat _ _ (by omega), hlead]
    omega
  change ((((a.toUInt32 &&& 0x07) <<< 6 ||| (b.toUInt32 &&& 0x3f)) <<< 6 |||
    (c.toUInt32 &&& 0x3f)) <<< 6 ||| (d.toUInt32 &&& 0x3f)).toNat = _
  rw [shiftOr_toNat _ _ (by rw [shiftOr_toNat _ _ (by omega), h2]; omega),
    shiftOr_toNat _ _ (by omega), h2, value]
  omega

end Assemble

/-! ### A call on a well-formed text -/

section Call

variable {w : List ℕ}

/-- For the bytes `x` of a character of two bytes or more, `leadInfo` gives of its lead byte the
character's length, and a mask and bound that decode the character to its value and accept it. -/
theorem leadInfo_assemble (hw : Utf8.Char w) (hlen : 2 ≤ w.length) {x : List UInt8}
    (hx : x.map UInt8.toNat = w) :
    ∃ mask lowerBound, leadInfo (x.headD 0) = some (w.length, mask, lowerBound) ∧
      (assemble (.ofBytes x) mask w.length).toNat = value w ∧ lowerBound.toNat ≤ value w := by
  match x, hx with
  | [], hx | [_], hx =>
    subst hx
    simp at hlen
  | [a, b], hx =>
    subst hx
    obtain ⟨h1, h2, -, hv⟩ := Utf8.Char.inv_two hw
    exact ⟨0x1f, 0x80, leadInfo_two a (by omega) h2, assemble_two a b, hv⟩
  | [a, b, c], hx =>
    subst hx
    obtain ⟨h1, h2, -, -, hv⟩ := Utf8.Char.inv_three hw
    exact ⟨0x0f, 0x800, leadInfo_three a h1 h2, assemble_three a b c, hv⟩
  | [a, b, c, d], hx =>
    subst hx
    obtain ⟨h1, h2, -, -, -, hv⟩ := Utf8.Char.inv_four hw
    exact ⟨0x07, 0x10000, leadInfo_four a h1 (by omega), assemble_four a b c d, hv⟩
  | _ :: _ :: _ :: _ :: _ :: _, hx =>
    subst hx
    have := hw.length_le
    simp only [List.length_map, List.length_cons] at this
    omega

theorem fill_ofBytes (hw : Utf8.Char w) (hlen : 2 ≤ w.length) (rest : List UInt8) :
    ∀ (v u : List UInt8), (u ++ v).map UInt8.toNat <+: w →
      fill (.ofBytes u) u.length v.length (v ++ rest) = some (.ofBytes (u ++ v))
  | [], u, _ => by rw [List.length_nil, fill, List.append_nil]
  | b :: v, u, hpre => by
    have hlt : u.length < w.length := by
      have := hpre.length_le
      simp only [List.length_map, List.length_append, List.length_cons] at this
      omega
    have hb : w[u.length] = b.toNat := by
      rw [← hpre.getElem (by simp)]
      simp
    -- the first byte goes in unchecked; the others are tails
    have hcheck : (!(MbState.ofBytes u).isInitial && (b &&& 0xc0) != 0x80) = false := by
      cases u with
      | nil => rfl
      | cons a u =>
        have ha : a.toNat = w[0] := by
          rw [← hpre.getElem (by simp)]
          simp
        have ha0 : a ≠ 0 := fun h ↦ by
          have := hw.getElem_ge hlen 0 (by omega)
          rw [← ha, h] at this
          simp at this
        have htail := hw.tail_getElem _ hlt (by simp)
        rw [hb] at htail
        rw [MbState.isInitial_ofBytes_cons ha0, (tail_iff b).2 htail]
        rfl
    have hstore : MbState.setByte (.ofBytes u) u.length b = .ofBytes (u ++ [b]) :=
      MbState.setByte_ofBytes (by have := hw.length_le; omega) b
    rw [List.length_cons, List.cons_append, fill, if_neg (by simp [hcheck]), hstore,
      show u.length + 1 = (u ++ [b]).length by simp,
      fill_ofBytes hw hlen rest v (u ++ [b]) (by simpa using hpre)]
    simp

/-- What `mbrtoc32` reads of a state that holds the first bytes `u` of a character of two bytes
or more, before it runs the loop, when the chunk goes on with the character's byte `b`: the
fourth byte is zero, the fast path is not taken, the bytes so far are `u`, and the byte that
gives the length is the character's lead byte. -/
theorem entry_of_prefix (hw : Utf8.Char w) (hlen : 2 ≤ w.length) {u : List UInt8} {b : UInt8}
    (hpre : (u ++ [b]).map UInt8.toNat <+: w) :
    (MbState.ofBytes u).getByte 3 = 0 ∧
      ((MbState.ofBytes u).isInitial && (b &&& ~~~0x7f) == 0) = false ∧
      (MbState.ofBytes u).bytesSoFar = u.length ∧
      (if (MbState.ofBytes u).bytesSoFar > 0 then (MbState.ofBytes u).getByte 0 else b) =
        (u ++ [b]).headD 0 := by
  have hlt : u.length < w.length := by
    have := hpre.length_le
    simp only [List.length_map, List.length_append, List.length_cons, List.length_nil] at this
    omega
  have hw4 := hw.length_le
  have hwlen : (u ++ [b]).length ≤ w.length := by simpa using hpre.length_le
  have hbytes : ∀ i (hi : i < (u ++ [b]).length), ((u ++ [b])[i]).toNat = w[i] := fun i hi ↦ by
    rw [← hpre.getElem (by simpa using hi), List.getElem_map]
  have hne : ∀ x ∈ u, x ≠ 0 := by
    intro x hx h0
    obtain ⟨i, hi, rfl⟩ := List.getElem_of_mem hx
    have h1 := hbytes i (by simp; omega)
    have h2 := hw.getElem_ge hlen i (by omega)
    rw [List.getElem_append_left hi, h0] at h1
    simp at h1
    omega
  have hsofar := MbState.bytesSoFar_ofBytes (by omega) hne
  refine ⟨MbState.getByte_ofBytes_three (by omega), ?_, hsofar, ?_⟩
  · cases u with
    | nil =>
      have hlead := hw.lead_ge hlen
      have h0 := hbytes 0 (by simp)
      simp only [List.nil_append, List.getElem_cons_zero] at h0
      cases w with
      | nil => simp at hlt
      | cons a w =>
        simp only [List.headD_cons, List.getElem_cons_zero] at hlead h0
        have : ¬ (b &&& ~~~0x7f = 0) := fun h ↦ by have := (ascii_iff b).1 h; omega
        simp [this]
    | cons a u => simp [MbState.isInitial_ofBytes_cons (hne a (by simp))]
  · cases u with
    | nil =>
      rw [hsofar]
      rfl
    | cons a u => simp [hsofar]

/-- A call whose chunk finishes the character `w`, of which the state holds the first bytes `u`,
returns the character's value and the number of bytes it took, and leaves the state initial. -/
theorem mbrtoc32_char (hw : Utf8.Char w) {u v : List UInt8} (huv : (u ++ v).map UInt8.toNat = w)
    (hv : v ≠ []) (rest : List UInt8) :
    mbrtoc32 (v ++ rest) (.ofBytes u) =
      (.char (value w).toUInt32 (if value w = 0 then 0 else v.length), .initial) := by
  obtain ⟨b, v, rfl⟩ := List.exists_cons_of_ne_nil hv
  have hscalar := hw.isScalar
  rcases Nat.lt_or_ge w.length 2 with hone | hlen
  · -- a character of one byte takes the fast path
    obtain ⟨rfl, rfl⟩ : u = [] ∧ v = [] := by
      have := congrArg List.length huv
      simp only [List.length_map, List.length_append, List.length_cons] at this
      constructor <;> apply List.eq_nil_of_length_eq_zero <;> omega
    subst huv
    have hb := Utf8.Char.inv_one hw
    have hfast : (b &&& ~~~0x7f) = 0 := (ascii_iff b).2 hb
    simp [mbrtoc32, hfast, value, ← UInt8.toNat_inj]
  · obtain ⟨h3, hfast, hsofar, hch⟩ := entry_of_prefix hw hlen (u := u) (b := b)
      ⟨(v.map UInt8.toNat), by rw [← huv]; simp⟩
    obtain ⟨mask, lowerBound, hinfo, hval, hbound⟩ := leadInfo_assemble hw hlen huv
    have hwanted : w.length - u.length = v.length + 1 := by
      rw [← huv]
      simp
    have hfill := fill_ofBytes hw hlen rest (b :: v) u (by rw [huv])
    simp only [List.length_cons, List.cons_append] at hfill
    have hhead : (u ++ [b]).headD 0 = (u ++ b :: v).headD 0 := by cases u <;> rfl
    have hv32 : ((value w).toUInt32).toNat = value w := by
      rw [Nat.toUInt32, UInt32.toNat_ofNat']
      have := hscalar.1
      omega
    have hc32 : assemble (.ofBytes (u ++ b :: v)) mask w.length = (value w).toUInt32 := by
      rw [← UInt32.toNat_inj, hval, hv32]
    have hmin : min (v.length + 1) (v.length + rest.length + 1) = v.length + 1 := by omega
    rw [List.cons_append, mbrtoc32, if_neg (by simp [h3])]
    simp only [hfast, Bool.false_eq_true, if_false]
    rw [hch, hhead, hinfo]
    simp only [hsofar, hwanted, List.length_cons, List.length_append]
    rw [hmin, hfill]
    -- the checks after the last byte pass
    simp only [lt_irrefl, if_false, hc32]
    have hrange : ¬ ((0xd800 ≤ (value w).toUInt32 ∧ (value w).toUInt32 ≤ 0xdfff) ∨
        0x10ffff < (value w).toUInt32) := by
      simp only [UInt32.le_iff_toNat_le, UInt32.lt_iff_toNat_lt, hv32, UInt32.reduceToNat]
      unfold IsScalar at hscalar
      omega
    rw [if_neg (by rw [UInt32.lt_iff_toNat_lt, hv32]; omega), if_neg hrange]
    simp only [← UInt32.toNat_inj, hv32, UInt32.reduceToNat]

theorem map_toNat_toUInt8 (hw : Utf8.Char w) : (w.map Nat.toUInt8).map UInt8.toNat = w := by
  rw [List.map_map]
  conv_rhs => rw [← List.map_id w]
  refine List.map_congr_left fun x hx ↦ ?_
  have := hw.le_of_mem x hx
  simp only [Function.comp_apply, Nat.toUInt8, UInt8.toNat_ofNat', id]
  omega

/-- A call whose chunk stops inside the character `w`, of which the state holds the first bytes
`u`, returns `(size_t)-2` and keeps the bytes so far in the state. -/
theorem mbrtoc32_incomplete (hw : Utf8.Char w) {u v : List UInt8}
    (hpre : (u ++ v).map UInt8.toNat <+: w) (hlt : (u ++ v).length < w.length) (hv : v ≠ []) :
    mbrtoc32 v (.ofBytes u) = (.incomplete, .ofBytes (u ++ v)) := by
  obtain ⟨b, v, rfl⟩ := List.exists_cons_of_ne_nil hv
  have hlen : 2 ≤ w.length := by
    simp only [List.length_append, List.length_cons] at hlt
    omega
  obtain ⟨t, ht⟩ := hpre
  obtain ⟨h3, hfast, hsofar, hch⟩ := entry_of_prefix hw hlen (u := u) (b := b)
    ⟨v.map UInt8.toNat ++ t, by rw [← ht]; simp⟩
  -- the lead byte's entry, read off the whole character
  obtain ⟨mask, lowerBound, hinfo, -, -⟩ := leadInfo_assemble hw hlen (map_toNat_toUInt8 hw)
  have hhead : (u ++ [b]).headD 0 = (w.map Nat.toUInt8).headD 0 := by
    rw [← UInt8.toNat_inj, ← ht]
    cases u with
    | nil => simp
    | cons a u => simp
  have hwanted : v.length + 1 < w.length - u.length := by
    simp only [List.length_append, List.length_cons] at hlt
    omega
  have hfill := fill_ofBytes hw hlen [] (b :: v) u ⟨t, ht⟩
  simp only [List.length_cons, List.append_nil] at hfill
  rw [mbrtoc32, if_neg (by simp [h3])]
  simp only [hfast, Bool.false_eq_true, if_false]
  rw [hch, hhead, hinfo]
  simp only [hsofar, List.length_cons]
  rw [Nat.min_eq_right hwanted.le, hfill]
  dsimp only
  rw [if_pos hwanted]

end Call

/-! ### Decoding a text cut into chunks -/

section Feed

/-- `mbrtoc32`'s state holds the bytes `p` that the reference decoder keeps, and the text `l`
that follows is well formed as far as it goes. -/
def Agrees (state : MbState) (p : List ℕ) (l : List UInt8) : Prop :=
  ∃ u, state = .ofBytes u ∧ u.map UInt8.toNat = p ∧ Continues p (l.map UInt8.toNat)

/-- On a well-formed text, `mbrtoc32` and the reference decoder return the same from every call
and stay in agreeing states. -/
theorem lockstep_mbrtoc32 (state : MbState) (p : List ℕ) (c rest : List UInt8)
    (h : Agrees state p (c ++ rest)) (hc : c ≠ []) :
    @Utf8.Lockstep _ _ _ _ _ mbrtoc32Step referenceStep Agrees UInt32.toNat state p c rest := by
  obtain ⟨u, rfl, rfl, hcont⟩ := h
  rw [List.map_append] at hcont
  rcases hcont.split with ⟨w, q, c', hw, hpq, hq, hc', hrest⟩ | ⟨⟨w, hw, hpre, hlt⟩, hnext⟩
  · -- the chunk finishes the character `w` with its bytes `v`
    obtain ⟨v, c'', rfl, rfl, rfl⟩ := List.map_eq_append_iff.mp hc'
    have hv : v ≠ [] := by
      rintro rfl
      exact hq rfl
    have huv : (u ++ v).map UInt8.toNat = w := by rw [List.map_append, hpq]
    have hret : max (if value w = 0 then 0 else v.length) 1 = v.length := by
      split_ifs with h0
      · have hone := hw.length_eq_one_of_value_eq_zero h0
        have hlen := congrArg List.length huv
        simp only [List.length_map, List.length_append] at hlen
        have := List.length_pos_of_ne_nil hv
        omega
      · have := List.length_pos_of_ne_nil hv
        omega
    have hv32 : ((value w).toUInt32).toNat = value w := by
      rw [Nat.toUInt32, UInt32.toNat_ofNat']
      have := hw.isScalar.1
      omega
    refine Or.inl ⟨(value w).toUInt32, if value w = 0 then 0 else v.length, .initial, [], ?_, ?_, ?_⟩
    · simp only [mbrtoc32Step, mbrtoc32_char hw huv hv]
    · rw [referenceStep, List.map_append, decodeStep, Lib.Utf8.decodeFrom_char hw hpq hq, hv32,
        List.length_map]
      congr 2
      omega
    · refine ⟨[], rfl, rfl, ?_⟩
      rw [hret, List.drop_left]
      simpa using hrest
  · -- the chunk stops inside the character `w`
    obtain ⟨t, ht⟩ := hpre
    have hpre' : (u ++ c).map UInt8.toNat <+: w := ⟨t, by rw [← ht, List.map_append]⟩
    have hlt' : (u ++ c).length < w.length := by simpa using hlt
    refine Or.inr (Or.inl ⟨.ofBytes (u ++ c), u.map UInt8.toNat ++ c.map UInt8.toNat, ?_, ?_,
      ⟨u ++ c, rfl, List.map_append, hnext⟩⟩)
    · simp only [mbrtoc32Step, mbrtoc32_incomplete hw hpre' hlt' hc]
    · rw [referenceStep, decodeStep, Lib.Utf8.decodeFrom_incomplete hw ⟨t, ht⟩ hlt 1]

/-- For every text that is well formed as far as it goes, and every cut of it into chunks, the
calls of `mbrtoc32` with one state, from the initial state, return what the decoder of RFC 3629
returns. -/
theorem mbrtoc32_feed (chunks : List (List UInt8))
    (hwf : Continues [] (chunks.flatten.map UInt8.toNat)) :
    (feed mbrtoc32Step .initial chunks).map (Event.map UInt32.toNat) =
      feed referenceStep [] chunks :=
  Utf8.feed_eq Agrees UInt32.toNat lockstep_mbrtoc32 chunks .initial [] ⟨[], rfl, rfl, hwf⟩

theorem mbrtoc32_feed_euro :
    (feed mbrtoc32Step .initial [[0xE2, 0x82], [0xAC, 0x41]]).map (Event.map UInt32.toNat) =
      feed referenceStep [] [[0xE2, 0x82], [0xAC, 0x41]] :=
  mbrtoc32_feed _ (by
    show Continues [] [0xE2, 0x82, 0xAC, 0x41]
    exact @Continues.char [0xE2, 0x82, 0xAC] [] _ [0x41]
      (.threeE1 (by norm_num) (by norm_num) (by norm_num [Tail]) (by norm_num [Tail])) (by simp) rfl
      (@Continues.char [0x41] [] _ [] (.one (by norm_num)) (by simp) rfl
        (@Continues.stop [0] [] [] (.one (by norm_num)) (List.nil_prefix) (by simp))))

/-- A text cut after `E0 80`, which no character begins: `mbrtoc32` asks for more, where the
decoder of RFC 3629 refuses the `80`. -/
theorem mbrtoc32_feed_overlong :
    (feed mbrtoc32Step .initial [[0xE0, 0x80]]).map (Event.map UInt32.toNat) = [.incomplete] ∧
      feed referenceStep [] [[0xE0, 0x80]] = [.error] := by
  decide

end Feed

/-! ### Encoding -/

section Encode

/-- The lead byte and the length of the UTF-8 form of a `c32` that is not ASCII, from the bits
above its low ones; `none` above `0x1FFFFF`. -/
def encodeInfo (c32 : UInt32) : Option (UInt8 × ℕ) :=
  if c32 &&& ~~~0x7ff = 0 then some (0xc0, 2)
  else if c32 &&& ~~~0xffff = 0 then some (0xe0, 3)
  else if c32 &&& ~~~0x1fffff = 0 then some (0xf0, 4)
  else none

/-- The loop of `c32rtomb` that stores the octets after the first, from the last back: each
takes the low six bits of `c32` behind `0x80`, and shifts them out. It returns what is left of
`c32` for the first octet, and the octets in order. -/
def tailOctets : ℕ → UInt32 → UInt32 × List UInt8
  | 0, c32 => (c32, [])
  | i + 1, c32 =>
    let (first, octets) := tailOctets i (c32 >>> 6)
    (first, octets ++ [((c32 &&& 0x3f) ||| 0x80).toUInt8])

/-- `c32rtomb` into a buffer: the octets it stores, whose number it returns, or `errno` for
`(size_t)-1`; and the state it leaves. -/
def c32rtomb (c32 : UInt32) (state : MbState) : Except ℤ (List UInt8) × MbState :=
  if c32 = 0 then (.ok [0], .initial)
  else if !state.isInitial then (.error eilseq, .initial)
  else if c32 &&& ~~~0x7f = 0 then
    -- the fast path for plain ASCII
    (.ok [c32.toUInt8], state)
  else
    match encodeInfo c32 with
    | none => (.error eilseq, state)
    | some (lead, length) =>
      let (first, octets) := tailOctets (length - 1) c32
      (.ok (((first &&& 0xff) ||| lead.toUInt32).toUInt8 :: octets), state)

theorem and_not_eq_zero_iff (c : UInt32) {m : UInt32} (k : ℕ) (hk : k < 32)
    (hm : m.toNat = 2 ^ k - 1) : c &&& ~~~m = 0 ↔ c.toNat < 2 ^ k := by
  rw [← UInt32.toNat_inj, UInt32.toNat_and, UInt32.toNat_not, hm,
    show UInt32.size = 2 ^ 32 from rfl, Align.and_high_mask 32 _ _ c.toNat_lt hk]
  simp [Nat.div_eq_zero_iff]

variable {c : UInt32}

theorem encodeInfo_two (h : c.toNat < 0x800) : encodeInfo c = some (0xc0, 2) := by
  rw [encodeInfo, if_pos ((and_not_eq_zero_iff c 11 (by norm_num) rfl).2 h)]

theorem encodeInfo_three (h : 0x800 ≤ c.toNat) (h' : c.toNat < 0x10000) :
    encodeInfo c = some (0xe0, 3) := by
  rw [encodeInfo, if_neg (fun h2 ↦ by have := (and_not_eq_zero_iff c 11 (by norm_num) rfl).1 h2; omega),
    if_pos ((and_not_eq_zero_iff c 16 (by norm_num) rfl).2 h')]

theorem encodeInfo_four (h : 0x10000 ≤ c.toNat) (h' : c.toNat < 0x200000) :
    encodeInfo c = some (0xf0, 4) := by
  rw [encodeInfo, if_neg (fun h2 ↦ by have := (and_not_eq_zero_iff c 11 (by norm_num) rfl).1 h2; omega),
    if_neg (fun h3 ↦ by have := (and_not_eq_zero_iff c 16 (by norm_num) rfl).1 h3; omega),
    if_pos ((and_not_eq_zero_iff c 21 (by norm_num) rfl).2 h')]

theorem encodeInfo_eq_none (h : 0x200000 ≤ c.toNat) : encodeInfo c = none := by
  rw [encodeInfo, if_neg (fun h2 ↦ by have := (and_not_eq_zero_iff c 11 (by norm_num) rfl).1 h2; omega),
    if_neg (fun h3 ↦ by have := (and_not_eq_zero_iff c 16 (by norm_num) rfl).1 h3; omega),
    if_neg (fun h4 ↦ by have := (and_not_eq_zero_iff c 21 (by norm_num) rfl).1 h4; omega)]

theorem shiftRight_toNat (x : UInt32) : (x >>> 6).toNat = x.toNat / 64 := by
  rw [UInt32.toNat_shiftRight]
  simp only [UInt32.reduceToNat, Nat.reduceMod, Nat.shiftRight_eq_div_pow]

theorem tailOctet_toNat (x : UInt32) : (((x &&& 0x3f) ||| 0x80).toUInt8).toNat = 0x80 + x.toNat % 64 := by
  have hlow : (x &&& 0x3f).toNat = x.toNat % 2 ^ 6 := by
    rw [UInt32.toNat_and, show (0x3f : UInt32).toNat = 2 ^ 6 - 1 from rfl,
      Nat.and_two_pow_sub_one_eq_mod]
  rw [UInt32.toNat_toUInt8, UInt32.toNat_or, hlow, show (0x80 : UInt32).toNat = 2 ^ 7 from rfl,
    Nat.or_two_pow_eq_add_of_lt (by omega)]
  omega

theorem leadOctet_toNat (x : UInt32) (lead : UInt8) (k : ℕ) (hx : x.toNat < 2 ^ k)
    (hlead : lead.toNat = 2 ^ k * (lead.toNat / 2 ^ k)) (hfit : lead.toNat + 2 ^ k ≤ 256) :
    (((x &&& 0xff) ||| lead.toUInt32).toUInt8).toNat = lead.toNat + x.toNat := by
  have hlow : (x &&& 0xff).toNat = x.toNat := by
    rw [UInt32.toNat_and, show (0xff : UInt32).toNat = 2 ^ 8 - 1 from rfl,
      Nat.and_two_pow_sub_one_eq_mod]
    omega
  rw [UInt32.toNat_toUInt8, UInt32.toNat_or, hlow, UInt8.toNat_toUInt32, Nat.or_comm, hlead,
    ← Nat.two_pow_add_eq_or_of_lt hx, ← hlead]
  omega

/-- `c32rtomb` from the initial state writes the UTF-8 pattern of RFC 3629 for every code point
up to `0x1FFFFF`, and refuses the values above. -/
theorem c32rtomb_eq_encode (c : UInt32) :
    (c.toNat ≤ 0x1FFFFF → ∃ bytes, c32rtomb c .initial = (.ok bytes, .initial) ∧
      bytes.map UInt8.toNat = encode c.toNat) ∧
    (0x1FFFFF < c.toNat → c32rtomb c .initial = (.error eilseq, .initial)) := by
  have hne : 0x80 ≤ c.toNat → c ≠ 0 := fun h h0 ↦ by rw [h0] at h; simp at h
  have hnotAscii : 0x80 ≤ c.toNat → ¬ (c &&& ~~~0x7f = 0) := fun h h7 ↦ by
    have := (and_not_eq_zero_iff c 7 (by norm_num) rfl).1 h7
    omega
  have hshift := shiftRight_toNat
  refine ⟨fun hc ↦ ?_, fun hc ↦ ?_⟩
  · rcases Nat.lt_or_ge c.toNat 0x80 with h1 | h1
    · -- one octet: `NUL` or the fast path
      refine ⟨[c.toUInt8], ?_, ?_⟩
      · by_cases h0 : c = 0
        · rw [c32rtomb, if_pos h0, h0]
          rfl
        · rw [c32rtomb, if_neg h0, MbState.isInitial_initial,
            if_neg (by decide), if_pos ((and_not_eq_zero_iff c 7 (by norm_num) rfl).2 h1)]
      · rw [Utf8.encode_one h1]
        simp only [List.map_cons, List.map_nil, UInt32.toNat_toUInt8]
        congr 1
        omega
    rw [c32rtomb, if_neg (hne h1), MbState.isInitial_initial, if_neg (by decide),
      if_neg (hnotAscii h1)]
    rcases Nat.lt_or_ge c.toNat 0x800 with h2 | h2
    · rw [encodeInfo_two h2]
      refine ⟨_, rfl, ?_⟩
      change [(((c >>> 6 &&& 0xff) ||| (0xc0 : UInt8).toUInt32).toUInt8).toNat,
        (((c &&& 0x3f) ||| 0x80).toUInt8).toNat] = _
      rw [leadOctet_toNat _ _ 6 (by rw [hshift]; omega) rfl (by decide), tailOctet_toNat,
        hshift, Utf8.encode_two h1 h2]
      rfl
    rcases Nat.lt_or_ge c.toNat 0x10000 with h3 | h3
    · rw [encodeInfo_three h2 h3]
      refine ⟨_, rfl, ?_⟩
      change [((((c >>> 6) >>> 6 &&& 0xff) ||| (0xe0 : UInt8).toUInt32).toUInt8).toNat,
        ((((c >>> 6) &&& 0x3f) ||| 0x80).toUInt8).toNat, (((c &&& 0x3f) ||| 0x80).toUInt8).toNat] = _
      rw [leadOctet_toNat _ _ 5 (by rw [hshift, hshift]; omega) rfl (by decide), tailOctet_toNat,
        tailOctet_toNat, hshift, hshift, Utf8.encode_three h2 h3]
      simp only [List.cons.injEq, UInt8.reduceToNat, and_true]
      omega
    · rw [encodeInfo_four h3 (by omega)]
      refine ⟨_, rfl, ?_⟩
      change [(((((c >>> 6) >>> 6) >>> 6 &&& 0xff) ||| (0xf0 : UInt8).toUInt32).toUInt8).toNat,
        (((((c >>> 6) >>> 6) &&& 0x3f) ||| 0x80).toUInt8).toNat,
        ((((c >>> 6) &&& 0x3f) ||| 0x80).toUInt8).toNat,
        (((c &&& 0x3f) ||| 0x80).toUInt8).toNat] = _
      rw [leadOctet_toNat _ _ 4 (by rw [hshift, hshift, hshift]; omega) rfl (by decide),
        tailOctet_toNat, tailOctet_toNat, tailOctet_toNat, hshift, hshift, hshift,
        Utf8.encode_four h3]
      simp only [List.cons.injEq, UInt8.reduceToNat, and_true]
      omega
  · rw [c32rtomb, if_neg (hne (by omega)), MbState.isInitial_initial, if_neg (by decide),
      if_neg (hnotAscii (by omega)), encodeInfo_eq_none (by omega)]

end Encode

/-! ### Encoding and decoding invert each other on the scalar values -/

section RoundTrip

theorem toUInt32_value {w : List ℕ} (hw : Utf8.Char w) : ((value w).toUInt32).toNat = value w := by
  rw [Nat.toUInt32, UInt32.toNat_ofNat']
  have := hw.isScalar.1
  omega

/-- For every scalar value `c` (and `NUL`), `c32rtomb` from the initial state succeeds, and
`mbrtoc32` from the initial state reads `c` back from what it writes, taking all of it. -/
theorem mbrtoc32_c32rtomb (c : UInt32) (hc : IsScalar c.toNat) :
    ∃ bytes, c32rtomb c .initial = (.ok bytes, .initial) ∧
      mbrtoc32 bytes .initial = (.char c (if c = 0 then 0 else bytes.length), .initial) := by
  obtain ⟨bytes, henc, hbytes⟩ := (c32rtomb_eq_encode c).1 (by have := hc.1; omega)
  have hw := Utf8.char_encode hc
  rw [← hbytes] at hw
  have hne : bytes ≠ [] := fun h ↦ hw.ne_nil (by rw [h]; rfl)
  have hval : value (bytes.map UInt8.toNat) = c.toNat := by
    rw [hbytes, Utf8.value_encode hc.1]
  refine ⟨bytes, henc, ?_⟩
  have hcall := mbrtoc32_char hw (u := []) (v := bytes) (by simp) hne []
  rw [List.append_nil, MbState.ofBytes_nil, hval] at hcall
  rw [hcall, Nat.toUInt32, UInt32.ofNat_toNat]
  simp only [← UInt32.toNat_inj, UInt32.reduceToNat]

theorem mbrtoc32_c32rtomb_euro :
    ∃ bytes, c32rtomb 0x20AC .initial = (.ok bytes, .initial) ∧
      mbrtoc32 bytes .initial = (.char 0x20AC (if (0x20AC : UInt32) = 0 then 0 else bytes.length),
        .initial) :=
  mbrtoc32_c32rtomb 0x20AC (by decide)

example : mbrtoc32 [0xE2, 0x82, 0xAC] .initial = (.char 0x20AC 3, .initial) := by decide

/-- Conversely, `c32rtomb` writes every character of the syntax from its value. -/
theorem c32rtomb_value {w : List ℕ} (hw : Utf8.Char w) :
    c32rtomb (value w).toUInt32 .initial = (.ok (w.map Nat.toUInt8), .initial) := by
  have hv := toUInt32_value hw
  obtain ⟨bytes, henc, hbytes⟩ := (c32rtomb_eq_encode (value w).toUInt32).1
    (by have := hw.isScalar.1; omega)
  rw [hv, hw.encode_value] at hbytes
  rw [henc, ← hbytes, List.map_map]
  congr
  conv_lhs => rw [← List.map_id bytes]
  exact List.map_congr_left fun x _ ↦ (UInt8.ofNat_toNat).symm

theorem c32rtomb_value_euro :
    c32rtomb (value [0xE2, 0x82, 0xAC]).toUInt32 .initial =
      (.ok ([0xE2, 0x82, 0xAC].map Nat.toUInt8), .initial) :=
  c32rtomb_value (.threeE1 (by norm_num) (by norm_num) (by norm_num [Tail]) (by norm_num [Tail]))

/-- `c32rtomb` writes the surrogate `0xD800` as `ED A0 80` and returns 3, and `mbrtoc32` refuses
those bytes. -/
theorem c32rtomb_surrogate :
    c32rtomb 0xD800 .initial = (.ok [0xED, 0xA0, 0x80], .initial) ∧
      mbrtoc32 [0xED, 0xA0, 0x80] .initial = (.illegal eilseq, .initial) := by
  decide

end RoundTrip

end Bionic.Uchar
