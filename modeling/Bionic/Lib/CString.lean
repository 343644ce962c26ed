import Mathlib.Data.List.TakeWhile

/-!
# Terminated strings in a byte table

A string stored in a table of symbols ends at the first occurrence of a terminator. Reading
it with `takeWhile` and comparing it to a string that does not contain the terminator is the
same as comparing the string followed by the terminator with a prefix of the table of that
length: `takeWhile_eq_iff_take_eq` is the fact behind replacing `strcmp` by a `memcmp` of one
byte more than the length, and `stringAt_drop_eq_iff_bounded_take` adds the bound check that keeps
that `memcmp` inside the table.

`strncmp` compares C strings of bytes; on strings of one length without zero bytes its sign is
their lexicographic order (`compare_strncmp`), and over the length of one without zero bytes it is
zero exactly when that one is a prefix of the other (`strncmp_length_eq_zero_iff`).
-/

set_option autoImplicit false
set_option relaxedAutoImplicit false

namespace Bionic.Lib.CString

variable {α : Type*} [DecidableEq α]

/-- The string at the front of `table`: its entries up to the first `terminator`. -/
def stringAt (terminator : α) (table : List α) : List α := table.takeWhile (· ≠ terminator)

@[simp] theorem stringAt_nil (terminator : α) : stringAt terminator [] = [] := rfl

theorem stringAt_cons_terminator (terminator : α) (table : List α) :
    stringAt terminator (terminator :: table) = [] := by
  simp [stringAt]

theorem stringAt_cons_of_ne (terminator c : α) (table : List α) (hc : c ≠ terminator) :
    stringAt terminator (c :: table) = c :: stringAt terminator table := by
  simp [stringAt, hc]

theorem stringAt_append_cons_terminator {terminator : α} {name : List α} (hname : terminator ∉ name)
    (rest : List α) : stringAt terminator (name ++ terminator :: rest) = name := by
  induction name with
  | nil => exact stringAt_cons_terminator terminator rest
  | cons c name ih =>
    have hc : c ≠ terminator := fun h ↦ hname (h ▸ List.mem_cons_self)
    rw [List.cons_append, stringAt_cons_of_ne terminator c _ hc,
      ih fun h ↦ hname (List.mem_cons_of_mem c h)]

/-- On a table that holds a terminator, the string at its front is `name` (which does not
contain the terminator) exactly when the table starts with `name` and then the terminator. -/
theorem takeWhile_eq_iff_take_eq (terminator : α) (name table : List α)
    (hname : terminator ∉ name) (htable : terminator ∈ table) :
    stringAt terminator table = name ↔ table.take (name.length + 1) = name ++ [terminator] := by
  induction name generalizing table with
  | nil =>
    cases table with
    | nil => simp at htable
    | cons c rest =>
      by_cases hc : c = terminator
      · subst hc
        simp [stringAt_cons_terminator]
      · simp [stringAt_cons_of_ne _ _ _ hc, hc]
  | cons c name ih =>
    have hc : c ≠ terminator := fun h ↦ hname (h ▸ List.mem_cons_self)
    have hrest : terminator ∉ name := fun h ↦ hname (List.mem_cons_of_mem _ h)
    cases table with
    | nil => simp at htable
    | cons d rest =>
      by_cases hd : d = terminator
      · subst hd
        simp [stringAt_cons_terminator, hc.symm]
      · have hmem : terminator ∈ rest := by
          rcases List.mem_cons.mp htable with h | h
          · exact absurd h.symm hd
          · exact h
        rw [stringAt_cons_of_ne _ _ _ hd, List.length_cons, List.take_succ_cons, List.cons_append,
          List.cons.injEq, List.cons.injEq, ih rest hrest hmem]

omit [DecidableEq α] in
/-- The bound in front of a comparison of a non-empty `pattern` with the entries at `off` follows
from the comparison itself. -/
theorem take_drop_eq_iff_bounded (table pattern : List α) (off : ℕ) (hpattern : pattern ≠ []) :
    (off + pattern.length ≤ table.length ∧ (table.drop off).take pattern.length = pattern) ↔
      (table.drop off).take pattern.length = pattern := by
  refine ⟨fun h ↦ h.2, fun h ↦ ⟨?_, h⟩⟩
  have hpos := List.length_pos_iff.mpr hpattern
  have hlen := congrArg List.length h
  rw [List.length_take, List.length_drop] at hlen
  omega

omit [DecidableEq α] in
theorem mem_drop_of_getLast?_eq {terminator : α} {table : List α} {off : ℕ}
    (hlast : table.getLast? = some terminator) (hoff : off < table.length) :
    terminator ∈ table.drop off := by
  have hdrop : (table.drop off).getLast? = some terminator := by
    rw [List.getLast?_drop, if_neg (by omega), hlast]
  exact List.mem_of_getLast? hdrop

/-- `strcmp` of the string at offset `off` with `name` is the bounded `memcmp` of `name` and its
terminator with the entries at `off`. -/
theorem stringAt_drop_eq_iff_bounded_take (terminator : α) (name table : List α) (off : ℕ)
    (hname : terminator ∉ name) (htable : terminator ∈ table.drop off) :
    stringAt terminator (table.drop off) = name ↔
      off + name.length + 1 ≤ table.length ∧
        (table.drop off).take (name.length + 1) = (name ++ [terminator]).take (name.length + 1) := by
  have hpattern : (name ++ [terminator]).length = name.length + 1 := by simp
  have hfull : (name ++ [terminator]).take (name.length + 1) = name ++ [terminator] := by
    rw [← hpattern, List.take_length]
  rw [hfull, takeWhile_eq_iff_take_eq terminator name _ hname htable, Nat.add_assoc, ← hpattern,
    take_drop_eq_iff_bounded _ _ _ (by simp)]

/-! ### `strncmp` -/

/-- `strncmp`: the C strings `s1` and `s2` compared on at most `n` bytes, as unsigned bytes. A
list holds the bytes before the terminating zero, so that reading past its end reads `0`. The
result is the difference of the first bytes that differ, or `0`. -/
def strncmp : List UInt8 → List UInt8 → ℕ → ℤ
  | _, _, 0 => 0
  | s1, s2, n + 1 =>
    let c1 := s1.headD 0
    let c2 := s2.headD 0
    if c1 ≠ c2 then (c1.toNat : ℤ) - c2.toNat
    else if c1 = 0 then 0
    else strncmp s1.tail s2.tail n

theorem strncmp_cons_cons (x y : UInt8) (xs ys : List UInt8) (n : ℕ) :
    strncmp (x :: xs) (y :: ys) (n + 1) =
      if x ≠ y then (x.toNat : ℤ) - y.toNat else if x = 0 then 0 else strncmp xs ys n :=
  rfl

theorem strncmp_self (s : List UInt8) (n : ℕ) : strncmp s s n = 0 := by
  induction n generalizing s with
  | zero => rfl
  | succ n ih =>
    -- the first bytes agree: the comparison stops at the terminator or goes on
    rw [strncmp, if_neg (not_not_intro rfl)]
    split_ifs
    · rfl
    · exact ih s.tail

theorem compare_toNat_sub_toNat {x y : UInt8} (hne : x ≠ y) :
    compare ((x.toNat : ℤ) - y.toNat) 0 = compare x y := by
  have hne' : x.toNat ≠ y.toNat := fun h ↦ hne (UInt8.toNat_inj.mp h)
  simp only [compare, compareOfLessAndEq, UInt8.lt_iff_toNat_lt, hne, if_false]
  by_cases hlt : x.toNat < y.toNat
  · rw [if_pos (by omega), if_pos hlt]
  · rw [if_neg (by omega), if_neg hlt, if_neg (by omega)]

/-- On strings of one length without zero bytes, the sign of `strncmp` over their length is the
lexicographic comparison of their bytes. -/
theorem compare_strncmp {a b : List UInt8} (ha : 0 ∉ a) (hb : 0 ∉ b)
    (hlen : a.length = b.length) : compare (strncmp a b a.length) 0 = List.compareLex compare a b := by
  induction a generalizing b with
  | nil =>
    obtain rfl : b = [] := List.eq_nil_of_length_eq_zero hlen.symm
    rfl
  | cons x xs ih =>
    obtain ⟨y, ys, rfl⟩ : ∃ y ys, b = y :: ys := List.exists_cons_of_length_eq_add_one hlen.symm
    have hx : x ≠ 0 := fun h ↦ ha (h ▸ List.mem_cons_self)
    rw [List.length_cons, strncmp_cons_cons, List.compareLex_cons_cons]
    by_cases hxy : x = y
    · subst hxy
      rw [if_neg (not_not_intro rfl), if_neg hx, Std.ReflOrd.compare_self, Ordering.eq_then,
        ih (fun h ↦ ha (List.mem_cons_of_mem _ h)) (fun h ↦ hb (List.mem_cons_of_mem _ h))
          (by simpa using hlen)]
    · rw [if_pos hxy, compare_toNat_sub_toNat hxy]
      -- the first differing bytes decide
      have hcmp : compare x y ≠ .eq := fun h ↦ hxy (Std.LawfulEqOrd.eq_of_compare h)
      cases h : compare x y <;> simp_all

/-- `strncmp` over the length of a string without zero bytes is zero exactly when that string is
a prefix of the other: reading past the end of the other reads its terminator. -/
theorem strncmp_length_eq_zero_iff {p : List UInt8} (hp : 0 ∉ p) (s : List UInt8) :
    strncmp p s p.length = 0 ↔ p <+: s := by
  induction p generalizing s with
  | nil => simp [strncmp]
  | cons x p ih =>
    have hx : x ≠ 0 := fun h ↦ hp (h ▸ List.mem_cons_self)
    have hx' : x.toNat ≠ 0 := fun h ↦ hx (UInt8.toNat_inj.mp h)
    cases s with
    | nil => simp [strncmp, hx, hx']
    | cons y s =>
      rw [List.length_cons, strncmp_cons_cons, List.cons_prefix_cons]
      by_cases hxy : x = y
      · subst hxy
        rw [if_neg (not_not_intro rfl), if_neg hx, ih (fun h ↦ hp (List.mem_cons_of_mem _ h))]
        simp
      · have hne : x.toNat ≠ y.toNat := fun h ↦ hxy (UInt8.toNat_inj.mp h)
        rw [if_pos hxy]
        simp only [hxy, false_and, iff_false]
        omega

/-! ### Strings in a buffer -/

/-- The bytes `buf` hold the C string `s` from offset `0`: its bytes, then its terminator. -/
def HoldsString (buf : ℕ → UInt8) (s : List UInt8) : Prop := ∀ j ≤ s.length, buf j = s.getD j 0

end Bionic.Lib.CString
