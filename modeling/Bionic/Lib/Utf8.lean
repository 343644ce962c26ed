import Mathlib.Data.List.Infix
import Mathlib.Tactic.Ring
import Mathlib.Tactic.IntervalCases

/-!
# UTF-8

The syntax of a UTF-8 character, RFC 3629 §4 (`Char`), the encoding of a Unicode scalar value
(`encode`) and the value a character carries (`value`). The encoding is a bijection between the
scalar values and the characters: `char_encode`, `value_encode`, `Char.encode_value` and
`Char.isScalar`.

A decoder that is handed a text a few bytes at a time keeps the bytes of a character it has not
finished. `decodeStep` is the decoder that RFC 3629 describes, checking each byte as it comes:
it returns a character once its last byte has come, asks for more while the bytes so far can
still begin a character, and refuses the first byte that cannot continue one. `Outcome` is what
one call of such a decoder returns and `feed` runs one over a text cut into chunks; `feed_eq`
says when two decoders give the same results under every cut.

Octets are natural numbers, so that `omega` decides the ranges of the syntax.
-/

set_option autoImplicit false

namespace Bionic.Lib.Utf8

/-- `UTF8-tail = %x80-BF`. -/
def Tail (b : ℕ) : Prop := 0x80 ≤ b ∧ b ≤ 0xBF

/-- `UTF8-char`, RFC 3629 §4, one constructor for each alternative of the syntax. -/
inductive Char : List ℕ → Prop where
  /-- `UTF8-1 = %x00-7F` -/
  | one {a : ℕ} : a ≤ 0x7F → Char [a]
  /-- `UTF8-2 = %xC2-DF UTF8-tail` -/
  | two {a b : ℕ} : 0xC2 ≤ a → a ≤ 0xDF → Tail b → Char [a, b]
  /-- `UTF8-3 = %xE0 %xA0-BF UTF8-tail` -/
  | threeE0 {b c : ℕ} : 0xA0 ≤ b → b ≤ 0xBF → Tail c → Char [0xE0, b, c]
  /-- `/ %xE1-EC 2( UTF8-tail )` -/
  | threeE1 {a b c : ℕ} : 0xE1 ≤ a → a ≤ 0xEC → Tail b → Tail c → Char [a, b, c]
  /-- `/ %xED %x80-9F UTF8-tail` -/
  | threeED {b c : ℕ} : 0x80 ≤ b → b ≤ 0x9F → Tail c → Char [0xED, b, c]
  /-- `/ %xEE-EF 2( UTF8-tail )` -/
  | threeEE {a b c : ℕ} : 0xEE ≤ a → a ≤ 0xEF → Tail b → Tail c → Char [a, b, c]
  /-- `UTF8-4 = %xF0 %x90-BF 2( UTF8-tail )` -/
  | fourF0 {b c d : ℕ} : 0x90 ≤ b → b ≤ 0xBF → Tail c → Tail d → Char [0xF0, b, c, d]
  /-- `/ %xF1-F3 3( UTF8-tail )` -/
  | fourF1 {a b c d : ℕ} : 0xF1 ≤ a → a ≤ 0xF3 → Tail b → Tail c → Tail d → Char [a, b, c, d]
  /-- `/ %xF4 %x80-8F 2( UTF8-tail )` -/
  | fourF4 {b c d : ℕ} : 0x80 ≤ b → b ≤ 0x8F → Tail c → Tail d → Char [0xF4, b, c, d]

/-- A Unicode scalar value: a code point that is not a surrogate. -/
def IsScalar (c : ℕ) : Prop := c ≤ 0x10FFFF ∧ (c < 0xD800 ∨ 0xDFFF < c)

instance (c : ℕ) : Decidable (IsScalar c) := inferInstanceAs (Decidable (_ ∧ _))

/-- The shortest UTF-8 form of `c`, RFC 3629 §3. -/
def encode (c : ℕ) : List ℕ :=
  if c < 0x80 then [c]
  else if c < 0x800 then [0xC0 + c / 0x40, 0x80 + c % 0x40]
  else if c < 0x10000 then [0xE0 + c / 0x1000, 0x80 + c / 0x40 % 0x40, 0x80 + c % 0x40]
  else [0xF0 + c / 0x40000, 0x80 + c / 0x1000 % 0x40, 0x80 + c / 0x40 % 0x40, 0x80 + c % 0x40]

/-- The bits a character carries: those of its lead byte below the length marker, then six of
each continuation byte. -/
def value : List ℕ → ℕ
  | [a] => a
  | [a, b] => a % 0x20 * 0x40 + b % 0x40
  | [a, b, c] => a % 0x10 * 0x1000 + b % 0x40 * 0x40 + c % 0x40
  | [a, b, c, d] => a % 0x08 * 0x40000 + b % 0x40 * 0x1000 + c % 0x40 * 0x40 + d % 0x40
  | _ => 0

/-! ### The encoding is a bijection -/

theorem char_three {a b c : ℕ} (ha : 0xE0 ≤ a) (ha' : a ≤ 0xEF) (hb : Tail b) (hc : Tail c)
    (hE0 : a = 0xE0 → 0xA0 ≤ b) (hED : a = 0xED → b ≤ 0x9F) : Char [a, b, c] := by
  rcases (by omega : a = 0xE0 ∨ (0xE1 ≤ a ∧ a ≤ 0xEC) ∨ a = 0xED ∨ 0xEE ≤ a) with
    rfl | ⟨h1, h2⟩ | rfl | h1
  · exact .threeE0 (hE0 rfl) hb.2 hc
  · exact .threeE1 h1 h2 hb hc
  · exact .threeED hb.1 (hED rfl) hc
  · exact .threeEE h1 ha' hb hc

theorem char_four {a b c d : ℕ} (ha : 0xF0 ≤ a) (ha' : a ≤ 0xF4) (hb : Tail b) (hc : Tail c)
    (hd : Tail d) (hF0 : a = 0xF0 → 0x90 ≤ b) (hF4 : a = 0xF4 → b ≤ 0x8F) :
    Char [a, b, c, d] := by
  rcases (by omega : a = 0xF0 ∨ (0xF1 ≤ a ∧ a ≤ 0xF3) ∨ a = 0xF4) with rfl | ⟨h1, h2⟩ | rfl
  · exact .fourF0 (hF0 rfl) hb.2 hc hd
  · exact .fourF1 h1 h2 hb hc hd
  · exact .fourF4 hb.1 (hF4 rfl) hc hd

theorem char_encode {c : ℕ} (hc : IsScalar c) : Char (encode c) := by
  obtain ⟨hmax, hsur⟩ := hc
  unfold encode
  split_ifs with h1 h2 h3
  · exact .one (by omega)
  · exact .two (by omega) (by omega) ⟨by omega, by omega⟩
  · exact char_three (by omega) (by omega) ⟨by omega, by omega⟩ ⟨by omega, by omega⟩
      (fun _ ↦ by omega) (fun _ ↦ by omega)
  · exact char_four (by omega) (by omega) ⟨by omega, by omega⟩ ⟨by omega, by omega⟩
      ⟨by omega, by omega⟩ (fun _ ↦ by omega) (fun _ ↦ by omega)

theorem value_encode {c : ℕ} (hc : c ≤ 0x10FFFF) : value (encode c) = c := by
  unfold encode
  split_ifs <;> simp only [value] <;> omega

theorem Char.isScalar {s : List ℕ} (h : Char s) : IsScalar (value s) := by
  cases h <;> simp only [Tail, IsScalar, value] at * <;> omega

section Encode

variable {c : ℕ}

theorem encode_one (h : c < 0x80) : encode c = [c] := by
  rw [encode, if_pos h]

theorem encode_two (h : 0x80 ≤ c) (h' : c < 0x800) :
    encode c = [0xC0 + c / 0x40, 0x80 + c % 0x40] := by
  rw [encode, if_neg (by omega), if_pos h']

theorem encode_three (h : 0x800 ≤ c) (h' : c < 0x10000) :
    encode c = [0xE0 + c / 0x1000, 0x80 + c / 0x40 % 0x40, 0x80 + c % 0x40] := by
  rw [encode, if_neg (by omega), if_neg (by omega), if_pos h']

theorem encode_four (h : 0x10000 ≤ c) :
    encode c =
      [0xF0 + c / 0x40000, 0x80 + c / 0x1000 % 0x40, 0x80 + c / 0x40 % 0x40, 0x80 + c % 0x40] := by
  rw [encode, if_neg (by omega), if_neg (by omega), if_neg (by omega)]

end Encode

theorem Char.encode_value {s : List ℕ} (h : Char s) : encode (value s) = s := by
  cases h with
  | one ha =>
    rw [value, encode_one (by omega)]
  | two ha ha' hb =>
    obtain ⟨hb, hb'⟩ := hb
    rw [encode_two (by simp only [value]; omega) (by simp only [value]; omega)]
    simp only [value, List.cons.injEq, and_true]
    omega
  | threeE0 hb hb' hc | threeED hb hb' hc =>
    obtain ⟨hc, hc'⟩ := hc
    rw [encode_three (by simp only [value]; omega) (by simp only [value]; omega)]
    simp only [value, List.cons.injEq, and_true]
    omega
  | threeE1 ha ha' hb hc | threeEE ha ha' hb hc =>
    obtain ⟨⟨hb, hb'⟩, ⟨hc, hc'⟩⟩ := And.intro hb hc
    rw [encode_three (by simp only [value]; omega) (by simp only [value]; omega)]
    simp only [value, List.cons.injEq, and_true]
    omega
  | fourF0 hb hb' hc hd | fourF4 hb hb' hc hd =>
    obtain ⟨⟨hc, hc'⟩, ⟨hd, hd'⟩⟩ := And.intro hc hd
    rw [encode_four (by simp only [value]; omega)]
    simp only [value, List.cons.injEq, and_true]
    omega
  | fourF1 ha ha' hb hc hd =>
    obtain ⟨⟨hb, hb'⟩, ⟨hc, hc'⟩, ⟨hd, hd'⟩⟩ := And.intro hb (And.intro hc hd)
    rw [encode_four (by simp only [value]; omega)]
    simp only [value, List.cons.injEq, and_true]
    omega

/-! ### Checking a character byte by byte -/

/-- The length of a character with lead byte `a`. -/
def seqLength (a : ℕ) : ℕ :=
  if a ≤ 0x7F then 1 else if a ≤ 0xDF then 2 else if a ≤ 0xEF then 3 else 4

/-- Whether `b` may follow the lead byte `a`, RFC 3629 §4. -/
def secondOk (a b : ℕ) : Bool :=
  if a = 0xE0 then decide (0xA0 ≤ b ∧ b ≤ 0xBF)
  else if a = 0xED then decide (0x80 ≤ b ∧ b ≤ 0x9F)
  else if a = 0xF0 then decide (0x90 ≤ b ∧ b ≤ 0xBF)
  else if a = 0xF4 then decide (0x80 ≤ b ∧ b ≤ 0x8F)
  else decide (0x80 ≤ b ∧ b ≤ 0xBF)

/-- Whether `b` may follow the bytes `p` of a character that is not complete. -/
def byteOk : List ℕ → ℕ → Bool
  | [], b => decide (b ≤ 0x7F ∨ (0xC2 ≤ b ∧ b ≤ 0xF4))
  | [a], b => secondOk a b
  | _ :: _ :: _, b => decide (0x80 ≤ b ∧ b ≤ 0xBF)

theorem Char.byteOk_take {w : List ℕ} (hw : Char w) (i : ℕ) (hi : i < w.length) :
    byteOk (w.take i) w[i] = true := by
  cases hw <;> simp only [List.length_cons, List.length_nil] at hi <;> interval_cases i <;>
    simp only [List.take_succ_cons, List.take_zero, List.getElem_cons_succ, List.getElem_cons_zero,
      byteOk, secondOk] <;> (try simp only [Tail] at *) <;> (try split_ifs) <;>
    simp only [decide_eq_true_eq] <;> omega

theorem Char.byteOk_of_append {w p q : List ℕ} {b : ℕ} (hw : Char w) (h : p ++ b :: q = w) :
    byteOk p b = true := by
  have hi : p.length < w.length := by rw [← h]; simp
  have := hw.byteOk_take p.length hi
  simp only [← h, List.take_left', List.getElem_append_right (Nat.le_refl _), Nat.sub_self,
    List.getElem_cons_zero] at this
  exact this

theorem Char.length_eq_seqLength {w : List ℕ} (hw : Char w) : w.length = seqLength (w.headD 0) := by
  cases hw <;> simp only [List.length_cons, List.length_nil, List.headD_cons] <;> unfold seqLength <;>
    split_ifs <;> omega

theorem Char.ne_nil {w : List ℕ} (hw : Char w) : w ≠ [] := by
  cases hw <;> exact List.cons_ne_nil _ _

theorem Char.tail_getElem {w : List ℕ} (hw : Char w) (i : ℕ) (hi : i < w.length) (hpos : 0 < i) :
    Tail w[i] := by
  have hok := hw.byteOk_take i hi
  cases hw <;> simp only [List.length_cons, List.length_nil] at hi <;> interval_cases i <;>
    simp only [List.take_succ_cons, List.take_zero, List.getElem_cons_succ, List.getElem_cons_zero,
      byteOk, secondOk, Tail] at hok ⊢ <;> (try simp only [Tail] at *) <;> (try split_ifs at hok) <;>
    simp only [decide_eq_true_eq] at hok <;> omega

theorem Char.lead_ge {w : List ℕ} (hw : Char w) (hlen : 2 ≤ w.length) : 0xC2 ≤ w.headD 0 := by
  cases hw <;> simp only [List.length_cons, List.length_nil, List.headD_cons] at hlen ⊢ <;> omega

theorem Char.getElem_ge {w : List ℕ} (hw : Char w) (hlen : 2 ≤ w.length) (i : ℕ) (hi : i < w.length) :
    0x80 ≤ w[i] := by
  rcases Nat.eq_zero_or_pos i with rfl | hpos
  · have hlead := hw.lead_ge hlen
    cases w with
    | nil => exact absurd hi (Nat.not_lt_zero _)
    | cons a w => simp only [List.headD_cons] at hlead; simp only [List.getElem_cons_zero]; omega
  · exact (hw.tail_getElem i hi hpos).1

theorem Char.length_le {w : List ℕ} (hw : Char w) : w.length ≤ 4 := by
  cases hw <;> simp

theorem Char.le_of_mem {w : List ℕ} (hw : Char w) : ∀ x ∈ w, x ≤ 0xF4 := by
  cases hw <;> simp only [Tail, List.mem_cons, List.not_mem_nil, or_false] at * <;> omega

/-! Each alternative of the syntax by its length: the ranges of the lead byte and the tails, and
the least value of that length, which makes the form the shortest. -/

theorem Char.inv_one {a : ℕ} (hw : Char [a]) : a ≤ 0x7F := by
  cases hw
  assumption

theorem Char.inv_two {a b : ℕ} (hw : Char [a, b]) :
    0xC2 ≤ a ∧ a ≤ 0xDF ∧ Tail b ∧ 0x80 ≤ value [a, b] := by
  cases hw
  simp only [Tail, value] at *
  omega

theorem Char.inv_three {a b c : ℕ} (hw : Char [a, b, c]) :
    0xE0 ≤ a ∧ a ≤ 0xEF ∧ Tail b ∧ Tail c ∧ 0x800 ≤ value [a, b, c] := by
  cases hw <;> simp only [Tail, value] at * <;> omega

theorem Char.inv_four {a b c d : ℕ} (hw : Char [a, b, c, d]) :
    0xF0 ≤ a ∧ a ≤ 0xF4 ∧ Tail b ∧ Tail c ∧ Tail d ∧ 0x10000 ≤ value [a, b, c, d] := by
  cases hw <;> simp only [Tail, value] at * <;> omega

theorem Char.length_eq_one_of_value_eq_zero {w : List ℕ} (hw : Char w) (h : value w = 0) :
    w.length = 1 := by
  cases hw <;> simp only [Tail, value] at * <;> first | rfl | omega

/-! ### Well-formed texts -/

/-- The bytes `l` that follow the bytes `p` of a character not yet complete, in a text that is
well formed as far as it goes: they finish that character and go on with whole characters, and
may stop inside the last one. -/
inductive Continues : List ℕ → List ℕ → Prop where
  /-- The text stops inside the character. -/
  | stop {w p l : List ℕ} : Char w → p ++ l <+: w → (p ++ l).length < w.length → Continues p l
  /-- The character is finished and whole characters follow. -/
  | char {w p l rest : List ℕ} : Char w → p.length < w.length → p ++ l = w ++ rest →
      Continues [] rest → Continues p l

/-- A nonempty chunk `c` of a well-formed text either finishes the character in progress, with
the bytes `q`, or stops inside it. -/
theorem Continues.split {p c rest : List ℕ} (h : Continues p (c ++ rest)) :
    (∃ w q c', Char w ∧ p ++ q = w ∧ q ≠ [] ∧ c = q ++ c' ∧ Continues [] (c' ++ rest)) ∨
      (∃ w, Char w ∧ p ++ c <+: w ∧ (p ++ c).length < w.length) ∧ Continues (p ++ c) rest := by
  cases h with
  | @stop w _ _ hw hpre hlt =>
    have hpre' : p ++ c <+: w := (List.prefix_append _ rest).trans (by simpa using hpre)
    have hlt' : (p ++ c).length < w.length := by simp only [List.length_append] at hlt ⊢; omega
    exact Or.inr ⟨⟨w, hw, hpre', hlt'⟩, .stop hw (by simpa using hpre) (by simpa using hlt)⟩
  | @char w _ _ rest' hw hlt heq hrest =>
    rw [← List.append_assoc] at heq
    rcases List.append_eq_append_iff.mp heq with ⟨a', hw', hrest'⟩ | ⟨c'', hpc, hrest'⟩
    · -- the chunk stops inside the character, or ends exactly with it
      cases a' with
      | nil =>
        simp only [List.append_nil] at hw' hrest'
        subst hrest'
        refine Or.inl ⟨w, c, [], hw, hw'.symm, fun hc ↦ ?_, by simp, hrest⟩
        rw [hw', hc, List.append_nil] at hlt
        exact Nat.lt_irrefl _ hlt
      | cons b a' =>
        have hlt' : (p ++ c).length < w.length := by simp [hw']
        exact Or.inr ⟨⟨w, hw, ⟨_, hw'.symm⟩, hlt'⟩, .char hw hlt' (by rw [heq]) hrest⟩
    · -- the chunk runs past the end of the character
      rcases List.append_eq_append_iff.mp hpc with ⟨q, hwq, hc⟩ | ⟨x, hp, _⟩
      · refine Or.inl ⟨w, q, c'', hw, hwq.symm, fun hq ↦ ?_, hc, hrest' ▸ hrest⟩
        simp [hq] at hwq
        simp [hwq] at hlt
      · simp [hp] at hlt

/-- What one call of a decoder that keeps a state `σ` returns: a character, with the value the
call returns for it, or a request for more bytes, or a refusal; and the state after it. -/
inductive Outcome (σ α : Type) where
  | char (a : α) (ret : ℕ) (next : σ)
  | incomplete (next : σ)
  | error (next : σ)

/-- The decoder of RFC 3629, from the bytes `p` of a character not yet complete, counting the
bytes it takes from the chunk in `used`. A character returns the number of bytes of the chunk
it took, or 0 if it is NUL. -/
def decodeFrom (used : ℕ) (p : List ℕ) : List ℕ → Outcome (List ℕ) ℕ
  | [] => .incomplete p
  | b :: rest =>
    if byteOk p b then
      if (p ++ [b]).length = seqLength ((p ++ [b]).headD 0) then
        .char (value (p ++ [b])) (if value (p ++ [b]) = 0 then 0 else used) []
      else decodeFrom (used + 1) (p ++ [b]) rest
    else .error []

/-- One call of the decoder of RFC 3629 on a chunk, from the bytes `p` it kept. -/
def decodeStep (p c : List ℕ) : Outcome (List ℕ) ℕ := decodeFrom 1 p c

theorem decodeFrom_char {w p q rest : List ℕ} (hw : Char w) (hpq : p ++ q = w) (hq : q ≠ [])
    (used : ℕ) :
    decodeFrom used p (q ++ rest) =
      .char (value w) (if value w = 0 then 0 else used + q.length - 1) [] := by
  induction q generalizing p used with
  | nil => exact absurd rfl hq
  | cons b q ih =>
    have hok := hw.byteOk_of_append hpq
    have hlen := hw.length_eq_seqLength
    have hhead : (p ++ [b]).headD 0 = w.headD 0 := by
      rw [← hpq]
      cases p <;> rfl
    rw [List.cons_append, decodeFrom, if_pos hok]
    cases q with
    | nil =>
      rw [if_pos (by rw [hhead, ← hlen, hpq]), hpq]
      rfl
    | cons b' q =>
      have hpq' : (p ++ [b]) ++ b' :: q = w := by rw [← hpq]; simp
      rw [if_neg (by rw [hhead, ← hlen, ← hpq']; simp), ih hpq' (List.cons_ne_nil _ _)]
      simp only [List.length_cons]
      congr 2
      omega

theorem decodeFrom_incomplete {w p c : List ℕ} (hw : Char w) (hpc : p ++ c <+: w)
    (hlt : (p ++ c).length < w.length) (used : ℕ) : decodeFrom used p c = .incomplete (p ++ c) := by
  induction c generalizing p used with
  | nil => simp [decodeFrom]
  | cons b c ih =>
    obtain ⟨t, ht⟩ := hpc
    have hok := hw.byteOk_of_append (p := p) (b := b) (q := c ++ t) (by rw [← ht]; simp)
    have hlen := hw.length_eq_seqLength
    have hhead : (p ++ [b]).headD 0 = w.headD 0 := by
      rw [← ht]
      cases p <;> rfl
    rw [decodeFrom, if_pos hok, if_neg (by rw [hhead, ← hlen]; simp at hlt ⊢; omega),
      ih ⟨t, by rw [← ht]; simp⟩ (by simp at hlt ⊢; omega)]
    simp

/-! ### Chunked decoding -/

/-- What the caller sees of one call. -/
inductive Event (α : Type) where
  | char (a : α) (ret : ℕ)
  | incomplete
  | error
  deriving DecidableEq, Repr

def Event.map {α α' : Type} (f : α → α') : Event α → Event α'
  | .char a ret => .char (f a) ret
  | .incomplete => .incomplete
  | .error => .error

section Feed

variable {σ β α : Type} (step : σ → List β → Outcome σ α)

/-- The calls on one chunk: the decoder is handed what is left of it until it has used it all,
asks for more or refuses, with `none` for the state once it has refused. A call that returns a
character uses at least one byte, so a `fuel` as long as the chunk is enough. -/
def feedChunk : ℕ → σ → List β → List (Event α) × Option σ
  | 0, s, _ => ([], some s)
  | _ + 1, s, [] => ([], some s)
  | fuel + 1, s, b :: c =>
    match step s (b :: c) with
    | .char a ret s' =>
      let r := feedChunk fuel s' ((b :: c).drop (max ret 1))
      (.char a ret :: r.1, r.2)
    | .incomplete s' => ([.incomplete], some s')
    | .error _ => ([.error], none)

/-- The calls on a text cut into `chunks`, with one state throughout, up to the first refusal. -/
def feed (s : σ) : List (List β) → List (Event α)
  | [] => []
  | c :: cs =>
    (feedChunk step c.length s c).1 ++
      match (feedChunk step c.length s c).2 with
      | some s' => feed s' cs
      | none => []

end Feed

section Lockstep

variable {σ σ' β α α' : Type} {step : σ → List β → Outcome σ α}
  {step' : σ' → List β → Outcome σ' α'} (R : σ → σ' → List β → Prop) (f : α → α')

/-- Two decoders in states related by `R` for the text `c ++ rest` return the same from a call on
the chunk `c`, values mapped by `f`, and go on to states related for what is left. -/
def Lockstep (s : σ) (s' : σ') (c rest : List β) : Prop :=
  (∃ a ret t t', step s c = .char a ret t ∧ step' s' c = .char (f a) ret t' ∧
    R t t' (c.drop (max ret 1) ++ rest)) ∨
  (∃ t t', step s c = .incomplete t ∧ step' s' c = .incomplete t' ∧ R t t' rest) ∨
  (∃ t t', step s c = .error t ∧ step' s' c = .error t')

variable (hstep : ∀ s s' c rest, R s s' (c ++ rest) → c ≠ [] →
  @Lockstep _ _ _ _ _ step step' R f s s' c rest)
include hstep

theorem feedChunk_lockstep (fuel : ℕ) (s : σ) (s' : σ') (c rest : List β)
    (hfuel : c.length ≤ fuel) (h : R s s' (c ++ rest)) :
    (feedChunk step fuel s c).1.map (Event.map f) = (feedChunk step' fuel s' c).1 ∧
      (((feedChunk step fuel s c).2 = none ∧ (feedChunk step' fuel s' c).2 = none) ∨
        ∃ t t', (feedChunk step fuel s c).2 = some t ∧ (feedChunk step' fuel s' c).2 = some t' ∧
          R t t' rest) := by
  induction fuel generalizing s s' c with
  | zero =>
    obtain rfl : c = [] := List.eq_nil_of_length_eq_zero (by omega)
    exact ⟨rfl, Or.inr ⟨s, s', rfl, rfl, h⟩⟩
  | succ fuel ih =>
    cases c with
    | nil => exact ⟨rfl, Or.inr ⟨s, s', rfl, rfl, h⟩⟩
    | cons b c =>
      rcases hstep s s' (b :: c) rest h (List.cons_ne_nil _ _) with
        ⟨a, ret, t, t', hs, hs', hR⟩ | ⟨t, t', hs, hs', hR⟩ | ⟨t, t', hs, hs'⟩
      · have hlen : ((b :: c).drop (max ret 1)).length ≤ fuel := by
          simp only [List.length_drop, List.length_cons] at hfuel ⊢
          omega
        obtain ⟨hevents, hstates⟩ := ih t t' _ hlen hR
        simp only [feedChunk, hs, hs', List.map_cons, Event.map, hevents]
        exact ⟨trivial, hstates⟩
      · simp only [feedChunk, hs, hs']
        exact ⟨rfl, Or.inr ⟨t, t', rfl, rfl, hR⟩⟩
      · simp only [feedChunk, hs, hs']
        exact ⟨rfl, Or.inl ⟨trivial, trivial⟩⟩

/-- Two decoders that keep in lockstep on every call give the same results on every cut of a
text into chunks. -/
theorem feed_eq (chunks : List (List β)) (s : σ) (s' : σ') (h : R s s' chunks.flatten) :
    (feed step s chunks).map (Event.map f) = feed step' s' chunks := by
  induction chunks generalizing s s' with
  | nil => rfl
  | cons c cs ih =>
    rw [List.flatten_cons] at h
    obtain ⟨hevents, hstates⟩ := feedChunk_lockstep R f hstep c.length s s' c cs.flatten le_rfl h
    rw [feed, feed, List.map_append, hevents]
    rcases hstates with ⟨hnone, hnone'⟩ | ⟨t, t', ht, ht', hR⟩
    · rw [hnone, hnone']
      rfl
    · rw [ht, ht']
      exact congrArg _ (ih t t' hR)

end Lockstep

end Bionic.Lib.Utf8
