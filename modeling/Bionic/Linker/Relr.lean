import Mathlib.Data.List.Nodup
import Mathlib.Data.Nat.ModEq
import Mathlib.Logic.Function.Basic

/-!
# `SHT_RELR` relocations

`relocate_relr` reads a packed list of relative relocations. An even entry is the offset of a
word to relocate, and the base of the bitmaps after it is the next word. An odd entry is a
bitmap: its bits `1` to `8 * wordsize - 1` stand for the `8 * wordsize - 1` words from the base,
and the base then moves on past them. `apply_relr_reloc` adds `load_bias` to the word at
`offset + load_bias`.

Memory is a word at each address; the words relocated lie at distinct word-aligned offsets, so
they do not overlap. `ElfW(Addr)` arithmetic is modulo `2 ^ (8 * wordsize)`. The bitmap loop
`while (entry != 0)` shifts a word of `8 * wordsize` bits, so that many rounds bound it.

`encodeRelr` is the canonical encoding of sorted word-aligned offsets: an address entry for each
offset the current bitmap run does not cover, then one bitmap per window of `8 * wordsize - 1`
words after it, as long as the next window holds an offset. Reading a bitmap `2 * bits + 1` one
shift at a time relocates the offsets whose bits are set, in order (`relrBitmap_bitmapBits`);
reading the whole encoding relocates the offsets in order (`decode_encodeFrom`), and so
`relocateRelr_encodeRelr`: `relocate_relr` on the canonical encoding adds `load_bias` once to the
word at each offset and changes no other word.
-/

set_option autoImplicit false
set_option relaxedAutoImplicit false

namespace Bionic.Linker.Relr

section Model

variable (wordsize : ℕ)

/-- `apply_relr_reloc(offset, load_bias)`: `*(offset + load_bias) += load_bias`. -/
def applyRelrReloc (loadBias : ℕ) (mem : ℕ → ℕ) (offset : ℕ) : ℕ → ℕ :=
  let address := (offset + loadBias) % 2 ^ (8 * wordsize)
  Function.update mem address ((mem address + loadBias) % 2 ^ (8 * wordsize))

/-- The loop `while (entry != 0)` of `relocate_relr` over a bitmap `entry` from the base
`offset`, for at most `bits` rounds. -/
def relrBitmap (loadBias : ℕ) : ℕ → ℕ → ℕ → (ℕ → ℕ) → ℕ → ℕ
  | 0, _, _, mem => mem
  | bits + 1, entry, offset, mem =>
    if entry = 0 then mem
    else
      let entry := entry >>> 1
      let mem := if entry &&& 1 ≠ 0 then applyRelrReloc wordsize loadBias mem offset else mem
      relrBitmap loadBias bits entry ((offset + wordsize) % 2 ^ (8 * wordsize)) mem

/-- One entry of the loop of `relocate_relr`, on the base offset and the memory. -/
def relrEntry (loadBias : ℕ) (state : ℕ × (ℕ → ℕ)) (entry : ℕ) : ℕ × (ℕ → ℕ) :=
  if entry &&& 1 = 0 then
    ((entry + wordsize) % 2 ^ (8 * wordsize), applyRelrReloc wordsize loadBias state.2 entry)
  else
    ((state.1 + (8 * wordsize - 1) * wordsize) % 2 ^ (8 * wordsize),
      relrBitmap wordsize loadBias (8 * wordsize) entry state.1 state.2)

/-- `relocate_relr(begin, end, load_bias)` on the entries from `begin` to `end`: its result and
the memory after it. -/
def relocateRelr (entries : List ℕ) (loadBias : ℕ) (mem : ℕ → ℕ) : Bool × (ℕ → ℕ) :=
  (true, (entries.foldl (relrEntry wordsize loadBias) (0, mem)).2)

end Model

/-! ### The canonical encoding -/

section Encoding

variable (wordsize : ℕ)

/-- The bytes a bitmap covers: `8 * wordsize - 1` words. -/
def relrWindow : ℕ := (8 * wordsize - 1) * wordsize

/-- The bits of the offsets `g` in the window from `base`: bit `i` for the word
`base + i * wordsize`. -/
def bitmapBits (base : ℕ) (g : List ℕ) : ℕ := (g.map fun s ↦ 2 ^ ((s - base) / wordsize)).sum

/-- The bitmap entry of the window from `base` holding the offsets `g`. -/
def bitmapEntry (base : ℕ) (g : List ℕ) : ℕ := 2 * bitmapBits wordsize base g + 1

/-- The bitmap of a window that holds offsets; nothing for an empty one. -/
def flushWindow (base : ℕ) (g : List ℕ) : List ℕ :=
  if g = [] then [] else [bitmapEntry wordsize base g]

/-- The canonical encoding of sorted offsets from the current window (its base and the offsets
in it so far), `none` where the next offset is an address entry. -/
def encodeFrom : Option (ℕ × List ℕ) → List ℕ → List ℕ
  | none, [] => []
  | some (base, g), [] => flushWindow wordsize base g
  | none, s :: rest => s :: encodeFrom (some (s + wordsize, [])) rest
  | some (base, g), s :: rest =>
    if s < base + relrWindow wordsize then encodeFrom (some (base, g ++ [s])) rest
    -- the next window holds `s`
    else if g ≠ [] ∧ s < base + 2 * relrWindow wordsize then
      bitmapEntry wordsize base g :: encodeFrom (some (base + relrWindow wordsize, [s])) rest
    -- the run ends, and `s` is an address entry
    else flushWindow wordsize base g ++ s :: encodeFrom (some (s + wordsize, [])) rest

/-- The canonical `SHT_RELR` encoding of sorted word-aligned offsets. -/
def encodeRelr (offsets : List ℕ) : List ℕ := encodeFrom wordsize none offsets

example : encodeRelr 8 [0x1000, 0x1008, 0x1010, 0x1200] = [0x1000, 7, 3] := by decide

end Encoding

/-! ### The relocations applied -/

section Reloc

variable (wordsize loadBias : ℕ)

/-- The relocations at `offsets`, in order. -/
def relocAll (offsets : List ℕ) (mem : ℕ → ℕ) : ℕ → ℕ :=
  offsets.foldl (applyRelrReloc wordsize loadBias) mem

variable {wordsize loadBias}

@[simp] theorem relocAll_nil (mem : ℕ → ℕ) : relocAll wordsize loadBias [] mem = mem := rfl

@[simp] theorem relocAll_cons (s : ℕ) (rest : List ℕ) (mem : ℕ → ℕ) :
    relocAll wordsize loadBias (s :: rest) mem =
      relocAll wordsize loadBias rest (applyRelrReloc wordsize loadBias mem s) := rfl

@[simp] theorem relocAll_append (first second : List ℕ) (mem : ℕ → ℕ) :
    relocAll wordsize loadBias (first ++ second) mem =
      relocAll wordsize loadBias second (relocAll wordsize loadBias first mem) :=
  List.foldl_append

theorem applyRelrReloc_mod (mem : ℕ → ℕ) (offset : ℕ) :
    applyRelrReloc wordsize loadBias mem (offset % 2 ^ (8 * wordsize)) =
      applyRelrReloc wordsize loadBias mem offset := by
  simp only [applyRelrReloc, Nat.mod_add_mod]

theorem applyRelrReloc_of_ne {mem : ℕ → ℕ} {offset a : ℕ}
    (h : (offset + loadBias) % 2 ^ (8 * wordsize) ≠ a) :
    applyRelrReloc wordsize loadBias mem offset a = mem a :=
  Function.update_of_ne (Ne.symm h) _ _

theorem relocAll_of_not_mem {offsets : List ℕ} {a : ℕ}
    (h : ∀ o ∈ offsets, (o + loadBias) % 2 ^ (8 * wordsize) ≠ a) (mem : ℕ → ℕ) :
    relocAll wordsize loadBias offsets mem a = mem a := by
  induction offsets generalizing mem with
  | nil => rfl
  | cons o rest ih =>
    rw [relocAll_cons, ih (fun o' ho' ↦ h o' (List.mem_cons_of_mem _ ho')),
      applyRelrReloc_of_ne (h o List.mem_cons_self)]

/-- Relocations at distinct addresses add `load_bias` once to each of them and change no other
word. -/
theorem relocAll_apply {offsets : List ℕ}
    (hnd : (offsets.map fun o ↦ (o + loadBias) % 2 ^ (8 * wordsize)).Nodup) (mem : ℕ → ℕ)
    (a : ℕ) : relocAll wordsize loadBias offsets mem a =
      if ∃ o ∈ offsets, (o + loadBias) % 2 ^ (8 * wordsize) = a then
        (mem a + loadBias) % 2 ^ (8 * wordsize)
      else mem a := by
  induction offsets generalizing mem with
  | nil => simp
  | cons o rest ih =>
    rw [List.map_cons, List.nodup_cons, List.mem_map] at hnd
    rw [relocAll_cons]
    by_cases ho : (o + loadBias) % 2 ^ (8 * wordsize) = a
    · -- the word of `o`, which no later offset relocates again
      have hrest : ∀ o' ∈ rest, (o' + loadBias) % 2 ^ (8 * wordsize) ≠ a :=
        fun o' ho' heq ↦ hnd.1 ⟨o', ho', heq.trans ho.symm⟩
      rw [relocAll_of_not_mem hrest, if_pos ⟨o, List.mem_cons_self, ho⟩, applyRelrReloc, ho,
        Function.update_self]
    · rw [ih hnd.2, applyRelrReloc_of_ne ho]
      simp [ho]

end Reloc

/-! ### Reading a bitmap -/

section Bitmap

variable {wordsize : ℕ} (loadBias : ℕ)

theorem bitmapBits_nil (base : ℕ) : bitmapBits wordsize base [] = 0 := rfl

theorem bitmapBits_cons (base s : ℕ) (g : List ℕ) :
    bitmapBits wordsize base (s :: g) = 2 ^ ((s - base) / wordsize) + bitmapBits wordsize base g :=
  List.sum_cons

/-- The bits of offsets past the window's first word are those of the window one word on, moved
up a bit. -/
theorem bitmapBits_shift (hw : 0 < wordsize) {base : ℕ} {g : List ℕ}
    (hg : ∀ s ∈ g, base + wordsize ≤ s) :
    bitmapBits wordsize base g = 2 * bitmapBits wordsize (base + wordsize) g := by
  induction g with
  | nil => rfl
  | cons s g ih =>
    have hs : (s - base) / wordsize = (s - (base + wordsize)) / wordsize + 1 := by
      rw [← Nat.add_div_right _ hw]
      congr 1
      have := hg s List.mem_cons_self
      omega
    rw [bitmapBits_cons, bitmapBits_cons, ih fun s' hs' ↦ hg s' (List.mem_cons_of_mem _ hs'), hs,
      pow_succ]
    omega

theorem bitmapBits_eq_zero_iff {base : ℕ} {g : List ℕ} : bitmapBits wordsize base g = 0 ↔ g = [] := by
  cases g with
  | nil => simp [bitmapBits_nil]
  | cons s g => simp [bitmapBits_cons]

theorem shiftRight_one_two_mul_add {bits tag : ℕ} (htag : tag ≤ 1) : (2 * bits + tag) >>> 1 = bits := by
  rw [Nat.shiftRight_eq_div_pow]
  omega

/-- The bitmap loop relocates, in order, the offsets whose bits are set: bit `i` of `bits` is the
word `base + i * wordsize`, read in round `i + 1`; `tag` is what was shifted out. The induction is
on the rounds left, and each round moves the window on by a word. -/
theorem relrBitmap_bitmapBits (hw : 0 < wordsize) (rounds : ℕ) {base offset tag : ℕ}
    {g : List ℕ} (mem : ℕ → ℕ) (htag : tag ≤ 1)
    (hoffset : offset % 2 ^ (8 * wordsize) = base % 2 ^ (8 * wordsize))
    (hsorted : g.Pairwise (· < ·))
    (hg : ∀ s ∈ g, base ≤ s ∧ wordsize ∣ s - base ∧ s < base + rounds * wordsize) :
    relrBitmap wordsize loadBias rounds (2 * bitmapBits wordsize base g + tag) offset mem =
      relocAll wordsize loadBias g mem := by
  induction rounds generalizing base offset tag g mem with
  | zero =>
    obtain rfl : g = [] := List.eq_nil_iff_forall_not_mem.mpr fun s hs ↦ by
      have := hg s hs
      omega
    rfl
  | succ rounds ih =>
    rw [relrBitmap]
    by_cases hzero : 2 * bitmapBits wordsize base g + tag = 0
    · rw [if_pos hzero]
      have hbits : bitmapBits wordsize base g = 0 := by omega
      obtain rfl := bitmapBits_eq_zero_iff.mp hbits
      rfl
    rw [if_neg hzero]
    dsimp only
    rw [shiftRight_one_two_mul_add htag, Nat.and_one_is_mod]
    have hoffset' : (offset + wordsize) % 2 ^ (8 * wordsize) % 2 ^ (8 * wordsize) =
        (base + wordsize) % 2 ^ (8 * wordsize) := by
      rw [Nat.mod_mod, Nat.add_mod, hoffset, ← Nat.add_mod]
    -- a window whose first word is not relocated: the bits move down and the round does nothing
    have hskip : (∀ s ∈ g, base + wordsize ≤ s) →
        relrBitmap wordsize loadBias rounds (bitmapBits wordsize base g)
          ((offset + wordsize) % 2 ^ (8 * wordsize))
          (if bitmapBits wordsize base g % 2 ≠ 0 then
            applyRelrReloc wordsize loadBias mem offset else mem) =
        relocAll wordsize loadBias g mem := by
      intro hpast
      rw [bitmapBits_shift hw hpast, if_neg (by omega),
        ← Nat.add_zero (2 * bitmapBits wordsize (base + wordsize) g)]
      refine ih mem (Nat.zero_le 1) hoffset' hsorted fun s hs ↦ ?_
      obtain ⟨hle, hdvd, hlt⟩ := hg s hs
      refine ⟨hpast s hs, ?_, by rw [Nat.succ_mul] at hlt; omega⟩
      rw [show s - (base + wordsize) = s - base - wordsize by omega]
      exact Nat.dvd_sub hdvd (dvd_refl _)
    cases g with
    | nil => exact hskip (by simp)
    | cons s g =>
      obtain ⟨hs_lt, hg_sorted⟩ := List.pairwise_cons.mp hsorted
      -- every later offset lies a whole word past `s`
      have hpast : ∀ s' ∈ g, s + wordsize ≤ s' := fun s' hs' ↦ by
        obtain ⟨hle, hdvd, -⟩ := hg s List.mem_cons_self
        obtain ⟨hle', hdvd', -⟩ := hg s' (List.mem_cons_of_mem _ hs')
        have hgap : wordsize ∣ s' - s := by
          rw [show s' - s = (s' - base) - (s - base) by omega]
          exact Nat.dvd_sub hdvd' hdvd
        have := Nat.le_of_dvd (by have := hs_lt s' hs'; omega) hgap
        omega
      by_cases hbase : s = base
      · -- the window's first word is relocated in this round
        subst hbase
        have hbits : bitmapBits wordsize s (s :: g) = 2 * bitmapBits wordsize (s + wordsize) g + 1 := by
          rw [bitmapBits_cons, bitmapBits_shift hw hpast, Nat.sub_self, Nat.zero_div, pow_zero]
          omega
        rw [hbits, if_pos (by omega), ← applyRelrReloc_mod, hoffset, applyRelrReloc_mod,
          relocAll_cons]
        refine ih _ le_rfl hoffset' hg_sorted fun s' hs' ↦ ?_
        obtain ⟨-, hdvd', hlt'⟩ := hg s' (List.mem_cons_of_mem _ hs')
        refine ⟨hpast s' hs', ?_, by rw [Nat.succ_mul] at hlt'; omega⟩
        rw [show s' - (s + wordsize) = s' - s - wordsize by omega]
        exact Nat.dvd_sub hdvd' (dvd_refl _)
      · refine hskip fun s' hs' ↦ ?_
        obtain ⟨hle, hdvd, -⟩ := hg s List.mem_cons_self
        have hgap : wordsize ≤ s - base := Nat.le_of_dvd (by omega) hdvd
        have hfirst : base + wordsize ≤ s := by omega
        rcases List.mem_cons.mp hs' with rfl | hs'
        · exact hfirst
        · have := hpast s' hs'
          omega

end Bitmap

/-! ### Reading the whole encoding -/

section Decode

variable {wordsize : ℕ} (loadBias : ℕ)

/-- The encoder's window, from `b` with the offsets `g`, against the decoder's base `base` and
the offsets `rest` still to come: the decoder's base is the window's, and the window holds
sorted aligned offsets below every offset to come, which lie at or after the window's base. -/
structure WindowOk (wordsize base b : ℕ) (g rest : List ℕ) : Prop where
  base_mod : base % 2 ^ (8 * wordsize) = b % 2 ^ (8 * wordsize)
  aligned : wordsize ∣ b
  sorted : g.Pairwise (· < ·)
  mem_window : ∀ x ∈ g, b ≤ x ∧ wordsize ∣ x ∧ x < b + relrWindow wordsize
  lt_rest : ∀ x ∈ g, ∀ s ∈ rest, x < s
  le_rest : ∀ s ∈ rest, b ≤ s

theorem relrEntry_of_even {entry : ℕ} (h : entry % 2 = 0) (state : ℕ × (ℕ → ℕ)) :
    relrEntry wordsize loadBias state entry =
      ((entry + wordsize) % 2 ^ (8 * wordsize), applyRelrReloc wordsize loadBias state.2 entry) := by
  simp [relrEntry, Nat.and_one_is_mod, h]

theorem relrEntry_bitmapEntry (hw : 0 < wordsize) {base b : ℕ} {g rest : List ℕ}
    (hok : WindowOk wordsize base b g rest) (mem : ℕ → ℕ) :
    relrEntry wordsize loadBias (base, mem) (bitmapEntry wordsize b g) =
      ((base + relrWindow wordsize) % 2 ^ (8 * wordsize), relocAll wordsize loadBias g mem) := by
  have hodd : bitmapEntry wordsize b g &&& 1 ≠ 0 := by
    rw [Nat.and_one_is_mod, bitmapEntry]
    omega
  rw [relrEntry, if_neg hodd, bitmapEntry]
  refine Prod.ext rfl (relrBitmap_bitmapBits loadBias hw _ mem le_rfl hok.base_mod hok.sorted
    fun x hx ↦ ?_)
  obtain ⟨hle, hdvd, hlt⟩ := hok.mem_window x hx
  refine ⟨hle, Nat.dvd_sub hdvd hok.aligned, ?_⟩
  have : relrWindow wordsize ≤ 8 * wordsize * wordsize :=
    Nat.mul_le_mul_right _ (Nat.sub_le _ _)
  omega

theorem foldl_flushWindow (hw : 0 < wordsize) {base b : ℕ} {g rest : List ℕ}
    (hok : WindowOk wordsize base b g rest) (mem : ℕ → ℕ) (entries : List ℕ) :
    ∃ base', (flushWindow wordsize b g ++ entries).foldl (relrEntry wordsize loadBias) (base, mem) =
      entries.foldl (relrEntry wordsize loadBias) (base', relocAll wordsize loadBias g mem) := by
  by_cases hg : g = []
  · subst hg
    exact ⟨base, by simp [flushWindow]⟩
  · refine ⟨(base + relrWindow wordsize) % 2 ^ (8 * wordsize), ?_⟩
    rw [flushWindow, if_neg hg, List.singleton_append, List.foldl_cons,
      relrEntry_bitmapEntry loadBias hw hok]

/-- The decoder reads the encoding from any window in step with the encoder: it relocates the
window's offsets and then the offsets to come, in order. The induction is on the offsets to
come, for every window. -/
theorem decode_encodeFrom (hw : 0 < wordsize) (heven : 2 ∣ wordsize) (offsets : List ℕ) :
    ∀ (window : Option (ℕ × List ℕ)) (base : ℕ) (mem : ℕ → ℕ),
      offsets.Pairwise (· < ·) → (∀ s ∈ offsets, wordsize ∣ s) →
      (∀ b g, window = some (b, g) → WindowOk wordsize base b g offsets) →
      ((encodeFrom wordsize window offsets).foldl (relrEntry wordsize loadBias) (base, mem)).2 =
        relocAll wordsize loadBias ((window.map Prod.snd).getD [] ++ offsets) mem := by
  induction offsets with
  | nil =>
    rintro (_ | ⟨b, g⟩) base mem - - hwindow
    · rfl
    · obtain ⟨base', hflush⟩ := foldl_flushWindow loadBias hw (hwindow b g rfl) mem []
      rw [encodeFrom, ← List.append_nil (flushWindow wordsize b g), hflush]
      simp
  | cons s rest ih =>
    intro window base mem hsorted haligned hwindow
    obtain ⟨hs_lt, hrest_sorted⟩ := List.pairwise_cons.mp hsorted
    have hs_dvd : wordsize ∣ s := haligned s List.mem_cons_self
    have hrest_aligned : ∀ r ∈ rest, wordsize ∣ r := fun r hr ↦ haligned r (List.mem_cons_of_mem _ hr)
    -- every later offset lies a whole word past `s`
    have hpast : ∀ r ∈ rest, s + wordsize ≤ r := fun r hr ↦ by
      have hgap : wordsize ≤ r - s :=
        Nat.le_of_dvd (by have := hs_lt r hr; omega) (Nat.dvd_sub (hrest_aligned r hr) hs_dvd)
      omega
    -- `s` as an address entry, and the run after it
    have haddr : ∀ base mem, ((s :: encodeFrom wordsize (some (s + wordsize, [])) rest).foldl
        (relrEntry wordsize loadBias) (base, mem)).2 = relocAll wordsize loadBias (s :: rest) mem := by
      intro base mem
      have hs_even : s % 2 = 0 := Nat.mod_eq_zero_of_dvd (dvd_trans heven hs_dvd)
      have hok : WindowOk wordsize ((s + wordsize) % 2 ^ (8 * wordsize)) (s + wordsize) [] rest :=
        ⟨Nat.mod_mod _ _, Nat.dvd_add hs_dvd (Nat.dvd_refl _), List.Pairwise.nil, by simp, by simp, hpast⟩
      rw [List.foldl_cons, relrEntry_of_even loadBias hs_even,
        ih _ _ _ hrest_sorted hrest_aligned fun b g h ↦ by cases h; exact hok]
      rfl
    cases window with
    | none => exact haddr base mem
    | some window =>
      obtain ⟨b, g⟩ := window
      have hok := hwindow b g rfl
      simp only [encodeFrom]
      split_ifs with hin hnext
      · -- `s` joins the window
        have hok' : WindowOk wordsize base b (g ++ [s]) rest := by
          refine ⟨hok.base_mod, hok.aligned, ?_, fun x hx ↦ ?_, fun x hx r hr ↦ ?_,
            fun r hr ↦ hok.le_rest r (List.mem_cons_of_mem _ hr)⟩
          · exact List.pairwise_append.mpr ⟨hok.sorted, List.pairwise_singleton _ _,
              fun x hx y hy ↦ by
                rw [List.mem_singleton] at hy
                exact hy ▸ hok.lt_rest x hx s List.mem_cons_self⟩
          · rcases List.mem_append.mp hx with hx | hx
            · exact hok.mem_window x hx
            · rw [List.mem_singleton] at hx
              exact hx ▸ ⟨hok.le_rest s List.mem_cons_self, hs_dvd, hin⟩
          · rcases List.mem_append.mp hx with hx | hx
            · exact hok.lt_rest x hx r (List.mem_cons_of_mem _ hr)
            · rw [List.mem_singleton] at hx
              exact hx ▸ hs_lt r hr
        rw [ih _ _ _ hrest_sorted hrest_aligned fun b' g' h ↦ by cases h; exact hok']
        simp
      · -- the window's bitmap, and `s` opens the next window
        have hwindow_dvd : wordsize ∣ relrWindow wordsize := dvd_mul_left _ _
        have hok' : WindowOk wordsize ((base + relrWindow wordsize) % 2 ^ (8 * wordsize))
            (b + relrWindow wordsize) [s] rest := by
          refine ⟨?_, Nat.dvd_add hok.aligned hwindow_dvd, List.pairwise_singleton _ _,
            fun x hx ↦ ?_, fun x hx r hr ↦ ?_, fun r hr ↦ ?_⟩
          · rw [Nat.mod_mod, Nat.add_mod, hok.base_mod, ← Nat.add_mod]
          · rw [List.mem_singleton] at hx
            subst hx
            exact ⟨by omega, hs_dvd, by omega⟩
          · rw [List.mem_singleton] at hx
            exact hx ▸ hs_lt r hr
          · have := hs_lt r hr
            omega
        rw [List.foldl_cons, relrEntry_bitmapEntry loadBias hw hok,
          ih _ _ _ hrest_sorted hrest_aligned fun b' g' h ↦ by cases h; exact hok']
        simp
      · -- the run ends, and `s` is an address entry
        obtain ⟨base', hflush⟩ := foldl_flushWindow loadBias hw hok mem _
        rw [hflush, haddr]
        simp

/-- `relocate_relr` on the canonical encoding of sorted word-aligned offsets adds `load_bias`
once to the word at each offset and changes no other word. -/
theorem relocateRelr_encodeRelr (hw : 0 < wordsize) (heven : 2 ∣ wordsize) {offsets : List ℕ}
    (hsorted : offsets.Pairwise (· < ·))
    (haligned : ∀ s ∈ offsets, wordsize ∣ s ∧ s < 2 ^ (8 * wordsize)) (mem : ℕ → ℕ) :
    relocateRelr wordsize (encodeRelr wordsize offsets) loadBias mem =
      (true, fun a ↦ if ∃ s ∈ offsets, (s + loadBias) % 2 ^ (8 * wordsize) = a then
        (mem a + loadBias) % 2 ^ (8 * wordsize) else mem a) := by
  have hdecode := decode_encodeFrom loadBias hw heven offsets none 0 mem hsorted
    (fun s hs ↦ (haligned s hs).1) (by simp)
  -- offsets below the modulus lie at distinct addresses
  have hnd : (offsets.map fun o ↦ (o + loadBias) % 2 ^ (8 * wordsize)).Nodup := by
    refine List.Nodup.map_on (fun x hx y hy hxy ↦ ?_) (hsorted.imp Nat.ne_of_lt)
    have hmod : x ≡ y [MOD 2 ^ (8 * wordsize)] := Nat.ModEq.add_right_cancel' loadBias hxy
    rwa [Nat.ModEq, Nat.mod_eq_of_lt (haligned x hx).2, Nat.mod_eq_of_lt (haligned y hy).2] at hmod
  rw [relocateRelr, encodeRelr, hdecode]
  congr 1
  funext a
  simpa using relocAll_apply hnd mem a

theorem relocateRelr_encodeRelr_fourOffsets :
    relocateRelr 8 (encodeRelr 8 [0x1000, 0x1008, 0x1010, 0x1200]) 0x70000000 (fun _ ↦ 0) =
      (true, fun a ↦ if ∃ s ∈ [0x1000, 0x1008, 0x1010, 0x1200], (s + 0x70000000) % 2 ^ (8 * 8) = a
        then (0 + 0x70000000) % 2 ^ (8 * 8) else 0) :=
  relocateRelr_encodeRelr 0x70000000 (by decide) (by decide) (by decide) (by decide) _

end Decode

end Bionic.Linker.Relr
