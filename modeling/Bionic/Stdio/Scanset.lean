import Mathlib.Data.UInt
import Mathlib.Data.List.Basic
import Mathlib.Data.List.TakeWhile

/-!
# Scansets of `scanf` and `wscanf`

`%[...]` is compiled twice. The narrow `__vfscanf` fills a 256-entry table with `__sccl`, which
returns the format position past the set. The wide `__vfwscanf` computes the position past the
set in its `[` case and asks `in_ccl` for each character.

The range loop of `__sccl` is a `do`-`while`, so it stores `tab[c + 1]` even when the range
`x-x` is empty past `x`. The set `[x-x]` therefore takes `x + 1` as well, which `in_ccl` rejects,
and for `x = 0xff` the store is `tab[256]`, one past the table (`sccl_range_self`,
`inCcl_range_rejects_succ`). For a set with no closing `]`, `__sccl` returns the position of the
terminating NUL, while the `[` case of `__vfwscanf` steps past it (`sccl_end_unterminated`,
`wideScansetEnd_unterminated`).

A format is the list of its bytes from just past the `[`; the end of the list is the NUL.
Positions are offsets from the `[`'s successor.
-/

set_option autoImplicit false
set_option relaxedAutoImplicit false

namespace Bionic.Stdio.Scanset

/-! ## `__sccl` -/

/-- The table `__sccl` fills: its cells, and every index stored to after the `memset`, in order.
Only the cells `0..255` are the table's. -/
structure Table where
  cell : ℕ → Bool
  stores : List ℕ

/-- `memset(tab, v, 256)`. -/
def Table.memset (v : Bool) : Table := ⟨fun _ ↦ v, []⟩

/-- `tab[i] = v`. -/
def Table.store (tab : Table) (i : ℕ) (v : Bool) : Table :=
  ⟨fun j ↦ if j = i then v else tab.cell j, tab.stores ++ [i]⟩

@[simp]
theorem Table.cell_store (tab : Table) (i j : ℕ) (v : Bool) :
    (tab.store i v).cell j = if j = i then v else tab.cell j := rfl

@[simp]
theorem Table.stores_store (tab : Table) (i : ℕ) (v : Bool) :
    (tab.store i v).stores = tab.stores ++ [i] := rfl

@[simp]
theorem Table.cell_memset (v : Bool) (j : ℕ) : (Table.memset v).cell j = v := rfl

@[simp]
theorem Table.stores_memset (v : Bool) : (Table.memset v).stores = [] := rfl

/-- `do { tab[++c] = v; } while (c < n);`, for at most `fuel` rounds: the table and the last `c`. -/
def fillRange (v : Bool) (n : ℕ) : ℕ → ℕ → Table → Table × ℕ
  | 0, c, tab => (tab, c)
  | fuel + 1, c, tab =>
    if c + 1 < n then fillRange v n fuel (c + 1) (tab.store (c + 1) v)
    else (tab.store (c + 1) v, c + 1)

/-- The `doswitch` loop of `__sccl`, from `n = *fmt++` on. `c` is the character stored last and
`pos` the offset of `fmt`. The result is the table and the offset of the pointer `__sccl`
returns: the `]` is passed, a NUL is not. -/
def scclSwitch (v : Bool) : ℕ → ℕ → List UInt8 → Table → Table × ℕ
  | _, pos, [], tab => (tab, pos)
  -- `n` is the last byte: the `*fmt` a `-` looks at is the NUL, below every `c` (never 0
  -- here), so the `-` is literal
  | _, pos, [n], tab =>
    if n = 0 then (tab, pos)
    else if n = 93 then (tab, pos + 1)
    else if n = 45 then scclSwitch v 45 (pos + 1) [] (tab.store 45 v)
    else scclSwitch v n.toNat (pos + 1) [] (tab.store n.toNat v)
  | c, pos, n :: m :: fmt, tab =>
    if n = 0 then (tab, pos)
    else if n = 93 then (tab, pos + 1)
    else if n = 45 then
      -- `n = *fmt`: a `-` before `]` or before a smaller character is literal
      if m = 93 ∨ m.toNat < c then scclSwitch v 45 (pos + 1) (m :: fmt) (tab.store 45 v)
      else
        -- `fmt++`, fill `c + 1 .. m`, and `goto doswitch` without storing `c` again
        let r := fillRange v m.toNat (m.toNat + 1) c tab
        scclSwitch v r.2 (pos + 2) fmt r.1
    else scclSwitch v n.toNat (pos + 1) (m :: fmt) (tab.store n.toNat v)

/-- `__sccl(tab, fmt)`: the table and the offset of the pointer it returns. A leading `^`
negates the set, and the first character after it is taken as it is. -/
def sccl (fmt : List UInt8) : Table × ℕ :=
  let (v, c, pos) :=
    if fmt.headD 0 = 94 then (true, (fmt.drop 1).headD 0, 2) else (false, fmt.headD 0, 1)
  if c = 0 then (Table.memset v, pos - 1)
  else scclSwitch (!v) c.toNat pos (fmt.drop pos) ((Table.memset v).store c.toNat (!v))

/-! ## `in_ccl` and the `[` case of `__vfwscanf` -/

/-- The loop of `in_ccl` from `ccl` on, where `prev` is `*(ccl - 1)`: a `-` between two
characters with `prev ≤ last` is the range `prev..last`, any other character is literal. -/
def inCclFrom (wc : ℕ) (memberResult : Bool) : ℕ → List ℕ → Bool
  | _, [] => !memberResult
  | _, [x] => if x = 0 ∨ x = 93 then !memberResult
    else if x = wc then memberResult else inCclFrom wc memberResult x []
  | prev, x :: last :: ccl =>
    if x = 0 ∨ x = 93 then !memberResult
    else if x = 45 ∧ last ≠ 0 ∧ last ≠ 93 ∧ prev ≤ last then
      if prev ≤ wc ∧ wc ≤ last then memberResult else inCclFrom wc memberResult last ccl
    else if x = wc then memberResult
    else inCclFrom wc memberResult x (last :: ccl)

/-- `in_ccl(wc, ccl)`. The character before the set is the `[`, or the `^` of a negated set. -/
def inCcl (wc : ℕ) (ccl : List ℕ) : Bool :=
  let (memberResult, prev, ccl) :=
    if ccl.headD 0 = 94 then (false, 94, ccl.drop 1) else (true, 91, ccl)
  -- the first character may be `]` or `-` without being special
  if ccl.headD 0 = 45 ∨ ccl.headD 0 = 93 then
    if ccl.headD 0 = wc then memberResult
    else inCclFrom wc memberResult (ccl.headD 0) (ccl.drop 1)
  else inCclFrom wc memberResult prev ccl

/-- The offset past the set that the `[` case of `__vfwscanf` computes: past a `^`, past a first
`]`, up to the next `]` or NUL, and one more. -/
def wideScansetEnd (fmt : List ℕ) : ℕ :=
  let p := if fmt.headD 0 = 94 then 1 else 0
  let p := if (fmt.drop p).headD 0 = 93 then p + 1 else p
  p + ((fmt.drop p).takeWhile (fun x ↦ x != 0 && x != 93)).length + 1

/-! ## Where the two disagree -/

theorem fillRange_self (v : Bool) (n fuel : ℕ) (tab : Table) :
    fillRange v n (fuel + 1) n tab = (tab.store (n + 1) v, n + 1) := by
  simp [fillRange]

theorem scclSwitch_rbracket (v : Bool) (c pos : ℕ) (fmt : List UInt8) (tab : Table) :
    scclSwitch v c pos (93 :: fmt) tab = (tab, pos + 1) := by
  cases fmt <;> simp [scclSwitch]

theorem sccl_range_self (x : UInt8) (h0 : x ≠ 0) (h93 : x ≠ 93) (h94 : x ≠ 94) :
    sccl [x, 45, x, 93] =
      (((Table.memset false).store x.toNat true).store (x.toNat + 1) true, 4) := by
  have hlt : ¬ x.toNat < x.toNat := lt_irrefl _
  simp [sccl, scclSwitch, h0, h93, h94, fillRange_self]

theorem scclSwitch_snd_of_unterminated (v : Bool) (c pos : ℕ) (fmt : List UInt8) (tab : Table)
    (hfmt : ∀ b ∈ fmt, b ≠ 0 ∧ b ≠ 93) :
    (scclSwitch v c pos fmt tab).2 = pos + fmt.length := by
  fun_induction scclSwitch v c pos fmt tab
  case case1 => rfl
  -- a NUL or a `]` in the format contradicts `hfmt`
  case case2 | case3 | case6 | case7 => simp at hfmt
  -- every other byte is passed, a range's end together with its `-`
  all_goals
    rename_i ih
    rw [ih fun b hb ↦ hfmt b (by simp [hb])]
    simp +arith

theorem sccl_end_unterminated (f : List UInt8) (hf : ∀ b ∈ f, b ≠ 0 ∧ b ≠ 93) :
    (sccl f).2 = f.length := by
  rcases f with _ | ⟨b, rest⟩
  · rfl
  have hb := hf b (by simp)
  have hrest : ∀ b ∈ rest, b ≠ 0 ∧ b ≠ 93 := fun b h ↦ hf b (by simp [h])
  by_cases h94 : b = 94
  · -- past the `^`, the next byte is the first of the set, or the NUL
    rcases rest with _ | ⟨c, rest⟩
    · simp [sccl, h94]
    · have hc := hrest c (by simp)
      have hrest' : ∀ b ∈ rest, b ≠ 0 ∧ b ≠ 93 := fun b h ↦ hrest b (by simp [h])
      simp [sccl, h94, hc.1, scclSwitch_snd_of_unterminated _ _ _ _ _ hrest']
      omega
  · simp [sccl, h94, hb.1, scclSwitch_snd_of_unterminated _ _ _ _ _ hrest]
    omega

/-- With neither a NUL nor a `]` in the set, the `[` case of `__vfwscanf` steps one past its
end. -/
theorem wideScansetEnd_unterminated (f : List ℕ) (hf : ∀ x ∈ f, x ≠ 0 ∧ x ≠ 93) :
    wideScansetEnd f = f.length + 1 := by
  have hhead : ∀ p, (f.drop p).headD 0 ≠ 93 := by
    intro p
    cases h : f.drop p with
    | nil => simp
    | cons x _ => exact (hf x (List.mem_of_mem_drop (i := p) (by rw [h]; simp))).2
  have hall : ∀ p, (f.drop p).takeWhile (fun x ↦ x != 0 && x != 93) = f.drop p := by
    intro p
    rw [List.takeWhile_eq_self_iff]
    intro x hx
    have := hf x (List.mem_of_mem_drop hx)
    simpa using this
  have hne : f.headD 0 = 94 → 1 ≤ f.length := by
    cases f <;> simp
  simp only [wideScansetEnd, hhead, if_false, hall, List.length_drop]
  split
  · have := hne ‹_›
    omega
  · omega

theorem inCcl_range_rejects_succ (x : ℕ) (h0 : x ≠ 0) (h93 : x ≠ 93) (h94 : x ≠ 94) :
    inCcl (x + 1) [x, 45, x, 93] = false := by
  by_cases h45 : x = 45
  · -- a first `-` is literal, and the next `-` makes the range `-..-`
    subst h45
    decide
  · simp [inCcl, inCclFrom, h0, h93, h94, h45]

theorem sccl_disagrees_with_wide_scanset (x : UInt8) (h0 : x ≠ 0) (h93 : x ≠ 93) (h94 : x ≠ 94)
    (f : List UInt8) (hf : ∀ b ∈ f, b ≠ 0 ∧ b ≠ 93) :
    ((sccl [x, 45, x, 93]).1.cell (x.toNat + 1) = true ∧
      x.toNat + 1 ∈ (sccl [x, 45, x, 93]).1.stores ∧
      inCcl (x.toNat + 1) ([x, 45, x, 93].map UInt8.toNat) = false) ∧
    (sccl f).2 + 1 = wideScansetEnd (f.map UInt8.toNat) := by
  have hx : x.toNat ≠ 0 ∧ x.toNat ≠ 93 ∧ x.toNat ≠ 94 := by
    refine ⟨?_, ?_, ?_⟩ <;> intro h <;> simp_all [← UInt8.toNat_inj]
  have hf' : ∀ y ∈ f.map UInt8.toNat, y ≠ 0 ∧ y ≠ 93 := by
    intro y hy
    obtain ⟨b, hb, rfl⟩ := List.mem_map.mp hy
    have := hf b hb
    simp_all [← UInt8.toNat_inj]
  refine ⟨⟨?_, ?_, ?_⟩, ?_⟩
  · simp [sccl_range_self x h0 h93 h94]
  · simp [sccl_range_self x h0 h93 h94]
  · simpa using inCcl_range_rejects_succ x.toNat hx.1 hx.2.1 hx.2.2
  · rw [sccl_end_unterminated f hf, wideScansetEnd_unterminated _ hf', List.length_map]

theorem sccl_disagrees_with_wide_scanset_a :
    (97 : UInt8) ≠ 0 ∧ (97 : UInt8) ≠ 93 ∧ (97 : UInt8) ≠ 94 ∧ (∀ b ∈ [(97 : UInt8)], b ≠ 0 ∧ b ≠ 93) ∧
    (((sccl [97, 45, 97, 93]).1.cell 98 = true ∧ 98 ∈ (sccl [97, 45, 97, 93]).1.stores ∧
      inCcl 98 [97, 45, 97, 93] = false) ∧
    (sccl [97]).2 + 1 = wideScansetEnd [97]) :=
  ⟨by decide, by decide, by decide, by simp,
    sccl_disagrees_with_wide_scanset 97 (by decide) (by decide) (by decide) [97] (by simp)⟩

end Bionic.Stdio.Scanset
