import Mathlib.Data.BitVec
import Mathlib.Order.Bounds.Defs
import Bionic.Lib.SkewAlign

/-!
# The static TLS layout

`StaticTlsLayout` of `bionic_elf_tls.cpp` places the Bionic TCB, the executable's TLS segment and
the segments of the libraries loaded at startup one after another in the static TLS block. Its
cursor is a `size_t`, modelled as a `w`-bit word: `align_checked` rounds it up to an alignment
with a skew (`(value - skew + align - 1) & ~(align - 1)) + skew`), `reserve` places a block at the
rounded cursor, and `reserve_tp_pair` places two blocks around the thread pointer. A failed
`CHECK` and the fatal errors stop the process; they are the `TlsFatal` values of `Except`.

The offsets are compared with the same computation on unbounded numbers (`tpPairNat`), which
says what the layout is for. `reserveTpPair_eq` shows that the word computation gives exactly
those offsets whenever the last cursor fits in the word, and `reserveTpPair_offsets` collects
what they satisfy: `before` sits as close below the TP as its alignment and skew allow, the TP is
aligned to both alignments, and `after` is the first offset with its skew at or above the TP.

`reserveExeSegmentAndTcb_arm` applies this to the variant 1 layout of arm and arm64, where the TP
points into the TCB and the executable's segment follows the TCB's ten slots at the offset the
static linker assumed.
-/

set_option autoImplicit false
set_option relaxedAutoImplicit false

namespace Bionic.Tls.StaticLayout

open Bionic.Lib.SkewAlign

variable {w : ℕ}

/-! ### The model -/

/-- `TlsAlign`: an alignment with the skew `p_vaddr % p_align` of a segment. -/
structure TlsAlign (w : ℕ) where
  value : BitVec w := 1
  skew : BitVec w := 0
  deriving DecidableEq, Repr

/-- `TlsAlignedSize`: a size and an alignment. -/
structure TlsAlignedSize (w : ℕ) where
  size : BitVec w := 0
  align : TlsAlign w := {}
  deriving DecidableEq, Repr

/-- `TlsSegment`, with the one field the layout reads (the image is only copied later). -/
structure TlsSegment (w : ℕ) where
  alignedSize : TlsAlignedSize w
  deriving DecidableEq, Repr

/-- `StaticTlsLayout`: the cursor, the largest alignment so far and the offsets of the Bionic
structs and the executable's segment (`SIZE_MAX` until placed). -/
structure StaticTlsLayout (w : ℕ) where
  cursor : BitVec w := 0
  align : BitVec w := 1
  offsetBionicTcb : BitVec w := BitVec.allOnes w
  offsetBionicTls : BitVec w := BitVec.allOnes w
  offsetExe : BitVec w := BitVec.allOnes w
  deriving DecidableEq, Repr

/-- `TpAllocations`: the offsets of the block before the thread pointer, of the thread pointer,
and of the block after it; over `ℕ` for the unbounded layout. -/
structure TpAllocations (α : Type) where
  before : α
  tp : α
  after : α
  deriving DecidableEq, Repr

/-- The offsets of a `TpAllocations` of words as numbers. -/
def TpAllocations.toNat (p : TpAllocations (BitVec w)) : TpAllocations ℕ :=
  ⟨p.before.toNat, p.tp.toNat, p.after.toNat⟩

/-- Why the layout stops the process. -/
inductive TlsFatal (w : ℕ) where
  /-- A `CHECK` failed. -/
  | check
  /-- `static_tls_layout_overflow`: "TLS segments in static TLS overflowed". -/
  | overflow
  /-- "executable's TLS segment is underaligned: alignment is %zu (skew %zu), needs to be at least
  %zu": the segment's alignment and skew and the TCB size after the TP. -/
  | underaligned (value skew needed : BitVec w)
  deriving DecidableEq, Repr

/-- `powerof2(x)` of `sys/param.h`: `x - 1` overflows for `0`, which then counts as a power of
two; otherwise `x` and `x - 1` share no bit. -/
def powerof2 (x : BitVec w) : Bool := if x = 0 then true else (x - 1) &&& x == 0

/-- `MAX(a, b)` of `sys/param.h`. -/
def sizeMax (a b : BitVec w) : BitVec w := if a > b then a else b

/-- `align_checked`: round `value` up to the alignment and skew, and stop if that wrapped. -/
def alignChecked (value : BitVec w) (tlsAlign : TlsAlign w) : Except (TlsFatal w) (BitVec w) :=
  let align := tlsAlign.value
  let skew := tlsAlign.skew
  if align ≠ 0 ∧ powerof2 align ∧ skew < align then
    let result := ((value - skew + align - 1) &&& ~~~(align - 1)) + skew
    if result < value then .error .overflow else .ok result
  else .error .check

/-! #### The Bionic TCB on arm and arm64 -/

/-- `MIN_TLS_SLOT` on arm and arm64: two slots lie below the thread pointer. -/
def minTlsSlot : ℤ := -2

/-- `MAX_TLS_SLOT` on arm and arm64. -/
def maxTlsSlot : ℤ := 7

/-- `sizeof(void*)`, which is also `alignof(bionic_tcb)`, for a `w`-bit `size_t`. -/
def ptrSize (w : ℕ) : ℕ := w / 8

/-- `tcb_size_pre`: the TCB slots below the TP, `-MIN_TLS_SLOT * sizeof(void*)`. -/
def tcbSizePre (w : ℕ) : BitVec w := BitVec.ofInt w (-minTlsSlot * ptrSize w)

/-- `tcb_size_post`: the TCB slots from the TP up, `(MAX_TLS_SLOT + 1) * sizeof(void*)`. -/
def tcbSizePost (w : ℕ) : BitVec w := BitVec.ofInt w ((maxTlsSlot + 1) * ptrSize w)

/-- `TlsAlignedSize::of_type<bionic_tcb>()`: all the slots, word aligned. -/
def bionicTcb (w : ℕ) : TlsAlignedSize w where
  size := BitVec.ofInt w ((maxTlsSlot - minTlsSlot + 1) * ptrSize w)
  align := { value := BitVec.ofNat w (ptrSize w) }

namespace StaticTlsLayout

variable (l : StaticTlsLayout w)

/-- `align_cursor`: move the cursor up to the alignment and record the alignment. -/
def alignCursor (align : TlsAlign w) : Except (TlsFatal w) (BitVec w × StaticTlsLayout w) := do
  let cursor ← alignChecked l.cursor align
  return (cursor, { l with cursor, align := sizeMax l.align align.value })

/-- `align_cursor_unskewed`. -/
def alignCursorUnskewed (align : BitVec w) :
    Except (TlsFatal w) (BitVec w × StaticTlsLayout w) :=
  l.alignCursor { value := align }

/-- `reserve`: place `alignedSize.size` bytes at the aligned cursor; `__builtin_add_overflow`
stops the process when the end does not fit. -/
def reserve (alignedSize : TlsAlignedSize w) :
    Except (TlsFatal w) (BitVec w × StaticTlsLayout w) := do
  let (_, l) ← l.alignCursor alignedSize.align
  let result := l.cursor
  if BitVec.uaddOverflow l.cursor alignedSize.size then .error .overflow
  else return (result, { l with cursor := l.cursor + alignedSize.size })

/-- `reserve_tp_pair`: place `before` tentatively, align the TP to both alignments, place `after`
at the TP, and shift `before` forward over the padding that the TP's alignment added. -/
def reserveTpPair (before after : TlsAlignedSize w) :
    Except (TlsFatal w) (TpAllocations (BitVec w) × StaticTlsLayout w) := do
  let (tentativeBefore, l) ← l.reserve before
  let (tentativeBeforeEnd, l) ← l.alignCursorUnskewed before.align.value
  let (offsetTp, l) ← l.alignCursorUnskewed (sizeMax before.align.value after.align.value)
  let (offsetAfter, l) ← l.reserve after
  if (offsetTp - tentativeBeforeEnd) &&& (before.align.value - 1) = 0 then
    let offsetBefore := tentativeBefore + (offsetTp - tentativeBeforeEnd)
    return (⟨offsetBefore, offsetTp, offsetAfter⟩, l)
  else .error .check

/-- `reserve_exe_segment_and_tcb` on arm and arm64 (variant 1 TLS). The TCB is split around the
TP, which is aligned for both the TCB and the segment, and the segment follows the TCB; the
offset the code finds for it must be the one the static linker assumed (`abi_tpoff`). Without a
segment only the TCB is reserved. Returns the offset of the segment. -/
def reserveExeSegmentAndTcb (seg : Option (TlsSegment w)) :
    Except (TlsFatal w) (BitVec w × StaticTlsLayout w) :=
  match seg with
  | none => do
    let (offsetBionicTcb, l) ← l.reserve (bionicTcb w)
    return (0, { l with offsetBionicTcb })
  | some seg => do
    let maxAlign := sizeMax (BitVec.ofNat w (ptrSize w)) seg.alignedSize.align.value
    let (pair, l) ← l.reserveTpPair { size := tcbSizePre w }
      { size := tcbSizePost w, align := { value := maxAlign } }
    let l := { l with offsetBionicTcb := pair.before }
    let offsetTp := pair.tp
    let (offsetExe, l) ← l.reserve seg.alignedSize
    let l := { l with offsetExe }
    let abiTpoff ← alignChecked (2 * BitVec.ofNat w (ptrSize w)) seg.alignedSize.align
    let actualTpoff ← alignChecked (tcbSizePost w) seg.alignedSize.align
    if actualTpoff ≠ offsetExe - offsetTp then .error .check
    else if abiTpoff ≠ actualTpoff then
      .error (.underaligned seg.alignedSize.align.value seg.alignedSize.align.skew (tcbSizePost w))
    else return (offsetExe, l)

/-- `offset_thread_pointer`: the TP lies `-MIN_TLS_SLOT` words past the start of the TCB. -/
def offsetThreadPointer : BitVec w := l.offsetBionicTcb + tcbSizePre w

/-- `finish_layout`: round the size up to the largest alignment. -/
def finishLayout : Except (TlsFatal w) (StaticTlsLayout w) := do
  let cursor ← alignChecked l.cursor { value := l.align }
  return { l with cursor }

end StaticTlsLayout

/-! ### One lemma per operation

An alignment is `Valid` when the `CHECK` of `align_checked` accepts it. `TlsAlign.roundUp` is
where `align_checked` moves an offset when nothing wraps; each operation is shown to return the
word of the unbounded offset as long as that fits. -/

/-- A power of two with the skew below it: what the `CHECK` of `align_checked` asks for. -/
structure TlsAlign.Valid (a : TlsAlign w) : Prop where
  pow2 : a.value.toNat.isPowerOfTwo
  skew_lt : a.skew.toNat < a.value.toNat

/-- Where `align_checked` moves the offset `v` when nothing wraps. -/
def TlsAlign.roundUp (a : TlsAlign w) (v : ℕ) : ℕ :=
  Lib.SkewAlign.roundUp a.value.toNat a.skew.toNat v

theorem toNat_sizeMax (a b : BitVec w) : (sizeMax a b).toNat = max a.toNat b.toNat := by
  rw [sizeMax]
  split
  · rw [max_eq_left (le_of_lt (BitVec.lt_def.mp ‹_›))]
  · rw [max_eq_right (not_lt.mp (mt BitVec.lt_def.mpr ‹_›))]

namespace TlsAlign

variable {a : TlsAlign w}

theorem Valid.check (ha : a.Valid) : a.value ≠ 0 ∧ powerof2 a.value ∧ a.skew < a.value := by
  obtain ⟨k, hk⟩ := ha.pow2
  have hne : a.value ≠ 0 := by
    intro h0
    rw [h0] at hk
    exact absurd (BitVec.toNat_zero.symm.trans hk) (Nat.two_pow_pos k).ne
  refine ⟨hne, ?_, BitVec.lt_def.mpr ha.skew_lt⟩
  rw [powerof2, if_neg hne, sub_one_and_self a.value hk]
  rfl

theorem Valid.unskewed (ha : a.Valid) : ({ value := a.value } : TlsAlign w).Valid where
  pow2 := ha.pow2
  skew_lt := lt_of_eq_of_lt BitVec.toNat_zero (lt_of_le_of_lt (Nat.zero_le _) ha.skew_lt)

theorem Valid.sizeMax {b : TlsAlign w} (ha : a.Valid) (hb : b.Valid) :
    ({ value := StaticLayout.sizeMax a.value b.value } : TlsAlign w).Valid where
  pow2 := by
    rw [toNat_sizeMax]
    exact isPowerOfTwo_max ha.pow2 hb.pow2
  skew_lt := by
    refine lt_of_eq_of_lt BitVec.toNat_zero ?_
    rw [toNat_sizeMax]
    exact lt_of_le_of_lt (Nat.zero_le _) (lt_max_of_lt_left ha.skew_lt)

theorem roundUp_unskewed (v : BitVec w) (x : ℕ) :
    ({ value := v } : TlsAlign w).roundUp x = Lib.SkewAlign.roundUp v.toNat 0 x :=
  congrArg (fun s ↦ Lib.SkewAlign.roundUp v.toNat s x) BitVec.toNat_zero

theorem le_roundUp (ha : a.Valid) (v : ℕ) : v ≤ a.roundUp v :=
  Lib.SkewAlign.le_roundUp ha.skew_lt v

end TlsAlign

theorem alignChecked_eq {a : TlsAlign w} (ha : a.Valid) (v : BitVec w)
    (hfit : a.roundUp v.toNat < 2 ^ w) :
    alignChecked v a = .ok (BitVec.ofNat w (a.roundUp v.toNat)) := by
  obtain ⟨k, hk⟩ := ha.pow2
  have hval : (((v - a.skew + a.value - 1) &&& ~~~(a.value - 1)) + a.skew).toNat =
      a.roundUp v.toNat := by
    rw [TlsAlign.roundUp, hk] at hfit ⊢
    exact toNat_maskRoundUp_of_lt hk ha.skew_lt hfit
  have hnot : ¬((v - a.skew + a.value - 1) &&& ~~~(a.value - 1)) + a.skew < v := by
    rw [BitVec.lt_def, hval, not_lt]
    exact a.le_roundUp ha _
  simp only [alignChecked, if_pos ha.check, if_neg hnot]
  congr 1
  apply BitVec.eq_of_toNat_eq
  rw [hval, BitVec.toNat_ofNat, Nat.mod_eq_of_lt hfit]

theorem alignChecked_of_le {a : TlsAlign w} (ha : a.Valid) (v : BitVec w)
    (hover : 2 ^ w ≤ a.roundUp v.toNat) : alignChecked v a = .error .overflow := by
  obtain ⟨k, hk⟩ := ha.pow2
  have hlt : ((v - a.skew + a.value - 1) &&& ~~~(a.value - 1)) + a.skew < v := by
    rw [TlsAlign.roundUp, hk] at hover
    exact maskRoundUp_lt_of_le hk ha.skew_lt hover
  simp only [alignChecked, if_pos ha.check, if_pos hlt]

namespace StaticTlsLayout

variable (l : StaticTlsLayout w)

theorem alignCursor_eq {a : TlsAlign w} (ha : a.Valid) {c : ℕ} (hc : l.cursor.toNat = c)
    (hfit : a.roundUp c < 2 ^ w) :
    l.alignCursor a = .ok (BitVec.ofNat w (a.roundUp c),
      { l with cursor := BitVec.ofNat w (a.roundUp c), align := sizeMax l.align a.value }) := by
  subst hc
  rw [alignCursor, alignChecked_eq ha _ hfit]
  rfl

/-- `reserve` places the block at the rounded cursor and moves the cursor past it, when its end
fits in the word. -/
theorem reserve_eq {s : TlsAlignedSize w} (ha : s.align.Valid) {c : ℕ} (hc : l.cursor.toNat = c)
    (hfit : s.align.roundUp c + s.size.toNat < 2 ^ w) :
    l.reserve s = .ok (BitVec.ofNat w (s.align.roundUp c),
      { l with cursor := BitVec.ofNat w (s.align.roundUp c + s.size.toNat),
               align := sizeMax l.align s.align.value }) := by
  have hstart : s.align.roundUp c < 2 ^ w := by omega
  have hno : BitVec.uaddOverflow (BitVec.ofNat w (s.align.roundUp c)) s.size = false := by
    rw [BitVec.uaddOverflow, BitVec.toNat_ofNat, Nat.mod_eq_of_lt hstart]
    exact decide_eq_false (not_le.mpr hfit)
  have hend : BitVec.ofNat w (s.align.roundUp c) + s.size =
      BitVec.ofNat w (s.align.roundUp c + s.size.toNat) := by
    rw [BitVec.ofNat_add, BitVec.ofNat_toNat, BitVec.setWidth_eq]
  simp only [reserve, alignCursor_eq l ha hc hstart, bind, Except.bind, hno, Bool.false_eq_true,
    if_false, hend]
  rfl

end StaticTlsLayout

/-! ### The layout on unbounded offsets -/

/-- What `reserve_tp_pair` is for, from the cursor `c`: `before` at or above the cursor with its
skew and ending less than one alignment step below the TP, the TP aligned to both alignments,
`after` at the first offset with its skew at or above the TP, and the cursor just past `after`. -/
structure TpPlacement (c : ℕ) (before after : TlsAlignedSize w) (p : TpAllocations ℕ)
    (cursor : ℕ) : Prop where
  cursor_le_before : c ≤ p.before
  before_mod : p.before % before.align.value.toNat = before.align.skew.toNat
  dvd_tp : max before.align.value.toNat after.align.value.toNat ∣ p.tp
  before_end_le_tp : p.before + before.size.toNat ≤ p.tp
  tp_lt_before_end : p.tp < p.before + before.size.toNat + before.align.value.toNat
  after_least :
    IsLeast {n | p.tp ≤ n ∧ n % after.align.value.toNat = after.align.skew.toNat} p.after
  cursor_eq : cursor = p.after + after.size.toNat

/-- `reserve_tp_pair` from the cursor `c` with offsets in `ℕ`: the three offsets and the cursor
afterwards. -/
def tpPairNat (c : ℕ) (before after : TlsAlignedSize w) : TpAllocations ℕ × ℕ :=
  let tentativeBefore := before.align.roundUp c
  let tentativeBeforeEnd :=
    roundUp before.align.value.toNat 0 (tentativeBefore + before.size.toNat)
  let offsetTp :=
    roundUp (max before.align.value.toNat after.align.value.toNat) 0 tentativeBeforeEnd
  let offsetAfter := after.align.roundUp offsetTp
  (⟨tentativeBefore + (offsetTp - tentativeBeforeEnd), offsetTp, offsetAfter⟩,
    offsetAfter + after.size.toNat)

section Unbounded

variable {before after : TlsAlignedSize w} (hb : before.align.Valid) (ha : after.align.Valid)
include hb ha

/-- The unbounded offsets meet the placement: the shift of `before` is a multiple of its
alignment, so it keeps the skew, and it closes the gap to the TP up to less than one step. -/
theorem tpPairNat_placement (c : ℕ) :
    TpPlacement c before after (tpPairNat c before after).1 (tpPairNat c before after).2 := by
  obtain ⟨tb, htb⟩ : ∃ n, before.align.roundUp c = n := ⟨_, rfl⟩
  obtain ⟨e, he⟩ : ∃ n, roundUp before.align.value.toNat 0 (tb + before.size.toNat) = n :=
    ⟨_, rfl⟩
  obtain ⟨tp, htp⟩ : ∃ n, roundUp (max before.align.value.toNat after.align.value.toNat) 0 e = n :=
    ⟨_, rfl⟩
  obtain ⟨ta, hta⟩ : ∃ n, after.align.roundUp tp = n := ⟨_, rfl⟩
  simp only [tpPairNat, htb, he, htp, hta]
  have hpos : 0 < before.align.value.toNat := lt_of_le_of_lt (Nat.zero_le _) hb.skew_lt
  have hc : c ≤ tb := htb ▸ before.align.le_roundUp hb c
  have hle1 : tb + before.size.toNat ≤ e := he ▸ Lib.SkewAlign.le_roundUp hpos _
  have hlt1 : e < tb + before.size.toNat + before.align.value.toNat :=
    he ▸ Lib.SkewAlign.roundUp_lt hpos _
  have hle2 : e ≤ tp := htp ▸ Lib.SkewAlign.le_roundUp (lt_max_of_lt_left hpos) _
  have hdvd_tp : max before.align.value.toNat after.align.value.toNat ∣ tp :=
    htp ▸ dvd_roundUp_zero e
  have hshift : (tp - e) % before.align.value.toNat = 0 :=
    Nat.mod_eq_zero_of_dvd (Nat.dvd_sub
      ((dvd_max_of_isPowerOfTwo hb.pow2 ha.pow2).trans hdvd_tp) (he ▸ dvd_roundUp_zero _))
  refine ⟨?_, ?_, hdvd_tp, ?_, ?_, hta ▸ isLeast_roundUp ha.skew_lt tp, rfl⟩ <;> dsimp only
  · omega
  · rw [Nat.add_mod, hshift, Nat.add_zero, Nat.mod_mod, ← htb]
    exact Lib.SkewAlign.roundUp_mod hb.skew_lt c
  · omega
  · omega

end Unbounded

theorem toNat_ofNat_of_lt {x : ℕ} (hx : x < 2 ^ w) : (BitVec.ofNat w x).toNat = x := by
  rw [BitVec.toNat_ofNat, Nat.mod_eq_of_lt hx]

theorem ofNat_sub_ofNat {x y : ℕ} (hyx : y ≤ x) (hx : x < 2 ^ w) :
    BitVec.ofNat w x - BitVec.ofNat w y = BitVec.ofNat w (x - y) := by
  apply BitVec.eq_of_toNat_eq
  have hle : BitVec.ofNat w y ≤ BitVec.ofNat w x := by
    rw [BitVec.le_def, toNat_ofNat_of_lt hx, toNat_ofNat_of_lt (by omega)]
    exact hyx
  rw [BitVec.toNat_sub_of_le hle, toNat_ofNat_of_lt hx, toNat_ofNat_of_lt (by omega),
    toNat_ofNat_of_lt (by omega)]

namespace StaticTlsLayout

variable (l : StaticTlsLayout w)

theorem reserveTpPair_eq {before after : TlsAlignedSize w} (hb : before.align.Valid)
    (ha : after.align.Valid) (hfit : (tpPairNat l.cursor.toNat before after).2 < 2 ^ w) :
    l.reserveTpPair before after =
      .ok (⟨BitVec.ofNat w (tpPairNat l.cursor.toNat before after).1.before,
            BitVec.ofNat w (tpPairNat l.cursor.toNat before after).1.tp,
            BitVec.ofNat w (tpPairNat l.cursor.toNat before after).1.after⟩,
        { l with cursor := BitVec.ofNat w (tpPairNat l.cursor.toNat before after).2,
                 align := sizeMax (sizeMax (sizeMax (sizeMax l.align before.align.value)
                   before.align.value) (sizeMax before.align.value after.align.value))
                   after.align.value }) := by
  -- name the offsets of the unbounded layout, in the order the code reaches them
  obtain ⟨tb, htb⟩ : ∃ n, before.align.roundUp l.cursor.toNat = n := ⟨_, rfl⟩
  obtain ⟨e, he⟩ : ∃ n, roundUp before.align.value.toNat 0 (tb + before.size.toNat) = n :=
    ⟨_, rfl⟩
  obtain ⟨tp, htp⟩ : ∃ n, roundUp (max before.align.value.toNat after.align.value.toNat) 0 e = n :=
    ⟨_, rfl⟩
  obtain ⟨ta, hta⟩ : ∃ n, after.align.roundUp tp = n := ⟨_, rfl⟩
  simp only [tpPairNat, htb, he, htp, hta] at hfit ⊢
  have hpos : 0 < before.align.value.toNat := lt_of_le_of_lt (Nat.zero_le _) hb.skew_lt
  have hle1 : tb + before.size.toNat ≤ e := he ▸ Lib.SkewAlign.le_roundUp hpos _
  have hle2 : e ≤ tp := htp ▸ Lib.SkewAlign.le_roundUp (lt_max_of_lt_left hpos) _
  have hle3 : tp ≤ ta := hta ▸ after.align.le_roundUp ha tp
  rw [reserveTpPair, reserve_eq l hb rfl (by omega)]
  simp only [bind, Except.bind]
  rw [alignCursorUnskewed, alignCursor_eq _ hb.unskewed (toNat_ofNat_of_lt (by omega))
    (by rw [TlsAlign.roundUp_unskewed, htb, he]; omega)]
  simp only [TlsAlign.roundUp_unskewed, htb, he]
  rw [alignCursorUnskewed, alignCursor_eq _ (hb.sizeMax ha) (toNat_ofNat_of_lt (by omega))
    (by rw [TlsAlign.roundUp_unskewed, toNat_sizeMax, htp]; omega)]
  simp only [TlsAlign.roundUp_unskewed, toNat_sizeMax, htp]
  rw [reserve_eq _ ha (toNat_ofNat_of_lt (by omega)) (by rw [hta]; omega)]
  simp only [hta]
  -- the `CHECK`: the shift `tp - e` is a multiple of `before`'s alignment, as both ends are
  obtain ⟨k, hk⟩ := hb.pow2
  have hdvd : before.align.value.toNat ∣ tp - e :=
    Nat.dvd_sub (htp ▸ (dvd_max_of_isPowerOfTwo hb.pow2 ha.pow2).trans (dvd_roundUp_zero e))
      (he ▸ dvd_roundUp_zero _)
  have hcheck : BitVec.ofNat w (tp - e) &&& (before.align.value - 1) = 0 := by
    apply BitVec.eq_of_toNat_eq
    rw [toNat_and_sub_one _ _ hk, toNat_ofNat_of_lt (by omega), ← hk,
      Nat.mod_eq_zero_of_dvd hdvd]
    exact BitVec.toNat_zero.symm
  rw [ofNat_sub_ofNat hle2 (by omega), if_pos hcheck, ← BitVec.ofNat_add]
  rfl

/-- `reserve_tp_pair` passes its `CHECK` and places the two blocks and the TP as
`TpPlacement` says, whenever no addition of the code overflows. -/
theorem reserveTpPair_offsets {before after : TlsAlignedSize w} (hb : before.align.Valid)
    (ha : after.align.Valid) (hfit : (tpPairNat l.cursor.toNat before after).2 < 2 ^ w) :
    ∃ p l', l.reserveTpPair before after = .ok (p, l') ∧
      TpPlacement l.cursor.toNat before after p.toNat l'.cursor.toNat := by
  have hpl := tpPairNat_placement hb ha l.cursor.toNat
  refine ⟨_, _, l.reserveTpPair_eq hb ha hfit, ?_⟩
  -- every offset lies below the last cursor, so the words read back as the unbounded offsets
  generalize tpPairNat l.cursor.toNat before after = q at hpl hfit ⊢
  obtain ⟨⟨pb, pt, pa⟩, pc⟩ := q
  have hafter : pt ≤ pa := hpl.after_least.1.1
  have hend : pc = pa + after.size.toNat := hpl.cursor_eq
  have hbefore : pb + before.size.toNat ≤ pt := hpl.before_end_le_tp
  simp only [TpAllocations.toNat, toNat_ofNat_of_lt hfit, toNat_ofNat_of_lt (show pb < 2 ^ w by omega),
    toNat_ofNat_of_lt (show pt < 2 ^ w by omega), toNat_ofNat_of_lt (show pa < 2 ^ w by omega)]
  exact hpl

/-- The case of the source's tests where `before` is shifted over the alignment gap: nine bytes
aligned to four before a TP aligned to sixty-four. -/
theorem reserveTpPair_offsets_gap :
    ({ value := 4 } : TlsAlign 64).Valid ∧ ({ value := 64 } : TlsAlign 64).Valid ∧
      (tpPairNat (w := 64) (({} : StaticTlsLayout 64).cursor.toNat) { size := 9, align := { value := 4 } }
        { size := 128, align := { value := 64 } }).2 < 2 ^ 64 ∧
      ∃ p l', ({} : StaticTlsLayout 64).reserveTpPair { size := 9, align := { value := 4 } }
          { size := 128, align := { value := 64 } } = .ok (p, l') ∧
        TpPlacement (w := 64) (({} : StaticTlsLayout 64).cursor.toNat) { size := 9, align := { value := 4 } }
          { size := 128, align := { value := 64 } } p.toNat l'.cursor.toNat :=
  have hb : ({ value := 4 } : TlsAlign 64).Valid := ⟨⟨2, by decide⟩, by decide⟩
  have ha : ({ value := 64 } : TlsAlign 64).Valid := ⟨⟨6, by decide⟩, by decide⟩
  have hfit : (tpPairNat (w := 64) (({} : StaticTlsLayout 64).cursor.toNat)
      { size := 9, align := { value := 4 } } { size := 128, align := { value := 64 } }).2 <
      2 ^ 64 := by decide
  ⟨hb, ha, hfit, reserveTpPair_offsets {} hb ha hfit⟩

end StaticTlsLayout

/-! ### The TCB and the executable's segment on arm -/

/-- Where `reserve_exe_segment_and_tcb` leaves the cursor on arm from the cursor `c` when offsets
are unbounded numbers; no addition of the code overflows when this fits in the word. -/
def exeEndNat (c : ℕ) (seg : TlsSegment w) : ℕ :=
  seg.alignedSize.align.roundUp
      (tpPairNat c { size := tcbSizePre w }
        { size := tcbSizePost w,
          align := { value := sizeMax (BitVec.ofNat w (ptrSize w)) seg.alignedSize.align.value } }).2 +
    seg.alignedSize.size.toNat

section Arm

variable (hp : (ptrSize w).isPowerOfTwo) (hsmall : 10 * ptrSize w < 2 ^ w)

include hp in
theorem one_le_ptrSize : 1 ≤ ptrSize w := by
  obtain ⟨j, hj⟩ := hp
  rw [hj]
  exact Nat.one_le_two_pow

include hsmall in
theorem toNat_tcbSizePre : (tcbSizePre w).toNat = 2 * ptrSize w := by
  have hint : -minTlsSlot * (ptrSize w : ℤ) = ((2 * ptrSize w : ℕ) : ℤ) := by
    rw [minTlsSlot]
    omega
  rw [tcbSizePre, hint, BitVec.ofInt_natCast, toNat_ofNat_of_lt (by omega)]

include hsmall in
theorem toNat_tcbSizePost : (tcbSizePost w).toNat = 8 * ptrSize w := by
  have hint : (maxTlsSlot + 1) * (ptrSize w : ℤ) = ((8 * ptrSize w : ℕ) : ℤ) := by
    rw [maxTlsSlot]
    omega
  rw [tcbSizePost, hint, BitVec.ofInt_natCast, toNat_ofNat_of_lt (by omega)]

include hp hsmall

theorem toNat_two_mul_ptrSize :
    (2 * BitVec.ofNat w (ptrSize w)).toNat = 2 * ptrSize w := by
  have hone := one_le_ptrSize hp
  rw [BitVec.toNat_mul, toNat_ofNat_of_lt (by omega)]
  show (BitVec.ofNat w 2).toNat * ptrSize w % 2 ^ w = 2 * ptrSize w
  rw [toNat_ofNat_of_lt (by omega), Nat.mod_eq_of_lt (by omega)]

theorem width_pos : 0 < w := by
  have hone := one_le_ptrSize hp
  have hlt : 1 < 2 ^ w := by omega
  exact Nat.pos_of_ne_zero (by rintro rfl; exact absurd hlt (by decide))

theorem tcbPre_valid : ({ size := tcbSizePre w } : TlsAlignedSize w).align.Valid where
  pow2 := ⟨0, BitVec.toNat_one (width_pos hp hsmall)⟩
  skew_lt := by
    refine lt_of_eq_of_lt BitVec.toNat_zero ?_
    rw [show ({ size := tcbSizePre w } : TlsAlignedSize w).align.value.toNat = 1 from
      BitVec.toNat_one (width_pos hp hsmall)]
    exact Nat.one_pos

theorem ptrSize_valid : ({ value := BitVec.ofNat w (ptrSize w) } : TlsAlign w).Valid where
  pow2 := by
    show (BitVec.ofNat w (ptrSize w)).toNat.isPowerOfTwo
    rw [toNat_ofNat_of_lt (by omega)]
    exact hp
  skew_lt := by
    refine lt_of_eq_of_lt BitVec.toNat_zero ?_
    show 0 < (BitVec.ofNat w (ptrSize w)).toNat
    rw [toNat_ofNat_of_lt (by omega)]
    exact one_le_ptrSize hp

/-- On arm the TCB's slots below the TP end at the TP, its slots from the TP up start there, and
the TP is aligned for both the TCB and the segment. -/
theorem tcbPair_placement {a : TlsAlign w} (ha : a.Valid) (c : ℕ) {q : TpAllocations ℕ × ℕ}
    (hq : tpPairNat c { size := tcbSizePre w }
      { size := tcbSizePost w, align := { value := sizeMax (BitVec.ofNat w (ptrSize w)) a.value } }
      = q) :
    max a.value.toNat (ptrSize w) ∣ q.1.tp ∧ q.1.before + 2 * ptrSize w = q.1.tp ∧
      q.1.after = q.1.tp ∧ q.2 = q.1.tp + 8 * ptrSize w := by
  have hpl := hq ▸ tpPairNat_placement (tcbPre_valid hp hsmall)
    ((ptrSize_valid hp hsmall).sizeMax ha) c
  have hone : (1 : BitVec w).toNat = 1 := BitVec.toNat_one (width_pos hp hsmall)
  have hmax : (sizeMax (BitVec.ofNat w (ptrSize w)) a.value).toNat =
      max a.value.toNat (ptrSize w) := by
    rw [toNat_sizeMax, toNat_ofNat_of_lt (by omega), max_comm]
  -- the slots below the TP have alignment one, so `before` ends exactly at the TP
  have hdvd : max a.value.toNat (ptrSize w) ∣ q.1.tp := by
    have h : max (1 : BitVec w).toNat (sizeMax (BitVec.ofNat w (ptrSize w)) a.value).toNat ∣
        q.1.tp := hpl.dvd_tp
    rwa [hone, hmax, max_eq_right (le_max_of_le_right (one_le_ptrSize hp))] at h
  have hle : q.1.before + (tcbSizePre w).toNat ≤ q.1.tp := hpl.before_end_le_tp
  have hlt : q.1.tp < q.1.before + (tcbSizePre w).toNat + (1 : BitVec w).toNat :=
    hpl.tp_lt_before_end
  rw [toNat_tcbSizePre hsmall] at hle hlt
  -- the TP itself is aligned for the slots above it, so `after` starts there
  have hleast : IsLeast {n | q.1.tp ≤ n ∧
      n % (sizeMax (BitVec.ofNat w (ptrSize w)) a.value).toNat = (0 : BitVec w).toNat} q.1.after :=
    hpl.after_least
  have hafter : q.1.after ≤ q.1.tp :=
    hleast.2 ⟨le_rfl, by rw [hmax, Nat.mod_eq_zero_of_dvd hdvd]; exact BitVec.toNat_zero.symm⟩
  have hend : q.2 = q.1.after + (tcbSizePost w).toNat := hpl.cursor_eq
  rw [toNat_tcbSizePost hsmall] at hend
  have hat : q.1.after = q.1.tp := le_antisymm hafter hleast.1.1
  exact ⟨hdvd, by omega, hat, by omega⟩

/-- On arm, with a valid segment and nothing overflowing, `reserve_exe_segment_and_tcb` passes
its `CHECK`: the segment lies `align_checked(tcb_size_post)` past the TP, as the TP's alignment
covers the segment's. It stops only when the ABI's offset `align_checked(2 words)` differs. -/
theorem reserveExeSegmentAndTcb_eq (l : StaticTlsLayout w) {seg : TlsSegment w}
    (hseg : seg.alignedSize.align.Valid) (hfit : exeEndNat l.cursor.toNat seg < 2 ^ w) :
    ∃ (tp : ℕ) (l' : StaticTlsLayout w),
      l.reserveExeSegmentAndTcb (some seg) =
        (if BitVec.ofNat w (seg.alignedSize.align.roundUp (2 * ptrSize w)) =
            BitVec.ofNat w (seg.alignedSize.align.roundUp (8 * ptrSize w)) then
          .ok (BitVec.ofNat w (tp + seg.alignedSize.align.roundUp (8 * ptrSize w)), l')
        else .error (.underaligned seg.alignedSize.align.value seg.alignedSize.align.skew
          (tcbSizePost w))) ∧
      alignChecked (2 * BitVec.ofNat w (ptrSize w)) seg.alignedSize.align =
        .ok (BitVec.ofNat w (seg.alignedSize.align.roundUp (2 * ptrSize w))) ∧
      alignChecked (tcbSizePost w) seg.alignedSize.align =
        .ok (BitVec.ofNat w (seg.alignedSize.align.roundUp (8 * ptrSize w))) ∧
      max seg.alignedSize.align.value.toNat (ptrSize w) ∣ tp ∧
      l'.offsetBionicTcb = BitVec.ofNat w (tp - 2 * ptrSize w) ∧ 2 * ptrSize w ≤ tp ∧
      l'.offsetExe = BitVec.ofNat w (tp + seg.alignedSize.align.roundUp (8 * ptrSize w)) ∧
      tp + seg.alignedSize.align.roundUp (8 * ptrSize w) < 2 ^ w := by
  obtain ⟨q, hq⟩ : ∃ q, tpPairNat l.cursor.toNat { size := tcbSizePre w }
      { size := tcbSizePost w,
        align := { value := sizeMax (BitVec.ofNat w (ptrSize w)) seg.alignedSize.align.value } } =
      q := ⟨_, rfl⟩
  obtain ⟨hdvd, hbefore, -, hend⟩ := tcbPair_placement hp hsmall hseg l.cursor.toNat hq
  rw [exeEndNat, hq] at hfit
  -- the segment's alignment divides the TP's, so the segment lies `roundUp (8 * word)` past it
  have hA : seg.alignedSize.align.value.toNat ∣ q.1.tp :=
    (dvd_max_of_isPowerOfTwo hseg.pow2 hp).trans hdvd
  have hexe : seg.alignedSize.align.roundUp q.2 =
      q.1.tp + seg.alignedSize.align.roundUp (8 * ptrSize w) := by
    rw [hend]
    exact roundUp_add_of_dvd hA hseg.skew_lt _
  have h8 := seg.alignedSize.align.le_roundUp hseg (8 * ptrSize w)
  have h28 : seg.alignedSize.align.roundUp (2 * ptrSize w) ≤
      seg.alignedSize.align.roundUp (8 * ptrSize w) :=
    roundUp_mono hseg.skew_lt (by omega)
  have hq2 : q.2 < 2 ^ w := by
    have := seg.alignedSize.align.le_roundUp hseg q.2
    omega
  have habi := alignChecked_eq hseg (2 * BitVec.ofNat w (ptrSize w))
    (by rw [toNat_two_mul_ptrSize hp hsmall]; omega)
  have hactual := alignChecked_eq hseg (tcbSizePost w) (by rw [toNat_tcbSizePost hsmall]; omega)
  rw [toNat_two_mul_ptrSize hp hsmall] at habi
  rw [toNat_tcbSizePost hsmall] at hactual
  refine ⟨q.1.tp, ?_, ?heq, habi, hactual, hdvd, ?_, by omega, ?_, by omega⟩
  case heq =>
    rw [StaticTlsLayout.reserveExeSegmentAndTcb]
    dsimp only
    rw [l.reserveTpPair_eq (tcbPre_valid hp hsmall) ((ptrSize_valid hp hsmall).sizeMax hseg)
      (by rw [hq]; exact hq2), hq]
    simp only [bind, Except.bind]
    rw [StaticTlsLayout.reserve_eq _ hseg (toNat_ofNat_of_lt hq2) (by omega), hexe]
    simp only [habi, hactual]
    rw [ofNat_sub_ofNat (by omega) (by omega), Nat.add_sub_cancel_left, if_neg (not_not.mpr rfl),
      ite_not]
    rfl
  · exact congrArg (BitVec.ofNat w) (by omega)
  · rfl

omit hp in
theorem offsetThreadPointer_eq {l : StaticTlsLayout w} {tp : ℕ} (h2 : 2 * ptrSize w ≤ tp)
    (htcb : l.offsetBionicTcb = BitVec.ofNat w (tp - 2 * ptrSize w)) :
    l.offsetThreadPointer = BitVec.ofNat w tp := by
  have hpre : tcbSizePre w = BitVec.ofNat w (2 * ptrSize w) := by
    apply BitVec.eq_of_toNat_eq
    rw [toNat_tcbSizePre hsmall, toNat_ofNat_of_lt (by omega)]
  rw [StaticTlsLayout.offsetThreadPointer, htcb, hpre, ← BitVec.ofNat_add, Nat.sub_add_cancel h2]

end Arm

/-- On arm and arm64, for an executable's segment with a power-of-two alignment, a skew below it
and no overflow, `reserve_exe_segment_and_tcb` never fails its `CHECK`: it stops only with the
underaligned error, exactly when the ABI's offset `align_checked(2 words)` of the segment differs
from Bionic's `align_checked(tcb_size_post)`. Otherwise the TP is a multiple of the segment's
alignment and of a word, the TCB's two lower slots end at the TP, and the segment lies
`align_checked(tcb_size_post)` past the TP, after the TCB's upper slots. -/
theorem reserveExeSegmentAndTcb_arm (hw : w = 32 ∨ w = 64) (l : StaticTlsLayout w)
    (seg : TlsSegment w) (hseg : seg.alignedSize.align.Valid)
    (hfit : exeEndNat l.cursor.toNat seg < 2 ^ w) :
    (∀ e, l.reserveExeSegmentAndTcb (some seg) = .error e →
      e = .underaligned seg.alignedSize.align.value seg.alignedSize.align.skew (tcbSizePost w)) ∧
    (l.reserveExeSegmentAndTcb (some seg) =
        .error (.underaligned seg.alignedSize.align.value seg.alignedSize.align.skew
          (tcbSizePost w)) ↔
      alignChecked (2 * BitVec.ofNat w (ptrSize w)) seg.alignedSize.align ≠
        alignChecked (tcbSizePost w) seg.alignedSize.align) ∧
    ∀ off l', l.reserveExeSegmentAndTcb (some seg) = .ok (off, l') →
      max seg.alignedSize.align.value.toNat (ptrSize w) ∣ l'.offsetThreadPointer.toNat ∧
      l'.offsetBionicTcb.toNat + 2 * ptrSize w = l'.offsetThreadPointer.toNat ∧
      off = l'.offsetExe ∧
      off.toNat = l'.offsetThreadPointer.toNat + seg.alignedSize.align.roundUp (8 * ptrSize w) := by
  -- a word is four or eight bytes, a power of two far below `2 ^ w`
  obtain ⟨hp, hsmall⟩ : (ptrSize w).isPowerOfTwo ∧ 10 * ptrSize w < 2 ^ w := by
    rcases hw with rfl | rfl
    · exact ⟨⟨2, rfl⟩, by decide⟩
    · exact ⟨⟨3, rfl⟩, by decide⟩
  obtain ⟨tp, l', heq, habi, hactual, hdvd, htcb, h2, hexe, hlt⟩ :=
    reserveExeSegmentAndTcb_eq hp hsmall l hseg hfit
  rw [heq, habi, hactual]
  by_cases hc : BitVec.ofNat w (seg.alignedSize.align.roundUp (2 * ptrSize w)) =
      BitVec.ofNat w (seg.alignedSize.align.roundUp (8 * ptrSize w))
  · -- the two offsets agree: the layout is returned
    rw [if_pos hc, hc]
    refine ⟨fun e h ↦ (by cases h), ⟨fun h ↦ (by cases h), fun h ↦ absurd rfl h⟩, ?_⟩
    rintro off l'' h
    obtain ⟨rfl, rfl⟩ := Prod.mk.inj (Except.ok.inj h)
    have htp := offsetThreadPointer_eq hsmall h2 htcb
    rw [htp, toNat_ofNat_of_lt (by omega), htcb, toNat_ofNat_of_lt (by omega),
      toNat_ofNat_of_lt hlt]
    exact ⟨hdvd, Nat.sub_add_cancel h2, hexe.symm, rfl⟩
  · -- they differ: the process stops with the underaligned error
    rw [if_neg hc]
    refine ⟨fun e h ↦ (Except.error.inj h).symm, ⟨fun _ h ↦ hc (Except.ok.inj h), fun _ ↦ rfl⟩, ?_⟩
    rintro off l'' h
    cases h

/-- The arm64 case of the source's tests with a segment of one word aligned to eight words and
skewed by one word. -/
theorem reserveExeSegmentAndTcb_arm_skewed :
    (64 = 32 ∨ 64 = 64) ∧ ({ value := 64, skew := 8 } : TlsAlign 64).Valid ∧
      exeEndNat (w := 64) (({} : StaticTlsLayout 64).cursor.toNat)
        ⟨{ size := 8, align := { value := 64, skew := 8 } }⟩ < 2 ^ 64 ∧
      ((∀ e, ({} : StaticTlsLayout 64).reserveExeSegmentAndTcb
            (some ⟨{ size := 8, align := { value := 64, skew := 8 } }⟩) = .error e →
          e = .underaligned 64 8 (tcbSizePost 64)) ∧
        (({} : StaticTlsLayout 64).reserveExeSegmentAndTcb
            (some ⟨{ size := 8, align := { value := 64, skew := 8 } }⟩) =
            .error (.underaligned 64 8 (tcbSizePost 64)) ↔
          alignChecked (2 * BitVec.ofNat 64 (ptrSize 64)) { value := 64, skew := 8 } ≠
            alignChecked (tcbSizePost 64) { value := 64, skew := 8 }) ∧
        ∀ off l', ({} : StaticTlsLayout 64).reserveExeSegmentAndTcb
            (some ⟨{ size := 8, align := { value := 64, skew := 8 } }⟩) = .ok (off, l') →
          max 64 (ptrSize 64) ∣ l'.offsetThreadPointer.toNat ∧
          l'.offsetBionicTcb.toNat + 2 * ptrSize 64 = l'.offsetThreadPointer.toNat ∧
          off = l'.offsetExe ∧
          off.toNat = l'.offsetThreadPointer.toNat +
            ({ value := 64, skew := 8 } : TlsAlign 64).roundUp (8 * ptrSize 64)) :=
  have hseg : ({ value := 64, skew := 8 } : TlsAlign 64).Valid := ⟨⟨6, by decide⟩, by decide⟩
  have hfit : exeEndNat (w := 64) (({} : StaticTlsLayout 64).cursor.toNat)
      ⟨{ size := 8, align := { value := 64, skew := 8 } }⟩ < 2 ^ 64 := by decide
  ⟨Or.inr rfl, hseg, hfit, reserveExeSegmentAndTcb_arm (Or.inr rfl) {} _ hseg hfit⟩

end Bionic.Tls.StaticLayout
