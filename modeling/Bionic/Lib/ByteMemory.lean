import Mathlib.Data.UInt

/-!
# A flat byte memory

Memory as a function from addresses to bytes, with the two bulk stores of `<string.h>`: `memset`
fills a range with one byte, and `memcpy` stores the bytes of a source range at a destination
range, every source byte read before any store (the meaning `memcpy` has on the disjoint ranges it
is defined for). `window m a n` is the list of the `n` bytes from `a`, the thing `memcmp` compares,
and `Filled m a n c` says those bytes all equal `c`. `load32 m a` is the little-endian word at `a`.

Each store has a lemma for the addresses it writes and one for those it leaves (`memset_of_mem`,
`memset_of_not_mem`, `memcpy_of_mem`, `memcpy_of_not_mem`); `window_congr` moves a window across
any store that agrees on it, and `filled_iff` turns a window comparison into a statement per byte.
-/

set_option autoImplicit false
set_option relaxedAutoImplicit false

namespace Bionic.Lib.ByteMemory

/-- A byte-addressed memory. -/
abbrev Mem := ℕ → UInt8

/-- `memset(dst, c, n)`. -/
def memset (m : Mem) (dst : ℕ) (c : UInt8) (n : ℕ) : Mem :=
  fun a ↦ if dst ≤ a ∧ a < dst + n then c else m a

/-- `memcpy(dst, src, n)`: byte `dst + i` becomes the old byte `src + i`. -/
def memcpy (m : Mem) (dst src n : ℕ) : Mem :=
  fun a ↦ if dst ≤ a ∧ a < dst + n then m (src + (a - dst)) else m a

/-- The `n` bytes from `a`. -/
def window (m : Mem) (a n : ℕ) : List UInt8 := (List.range n).map fun i ↦ m (a + i)

/-- A 4-byte little-endian load: the `uint32_t` at `a`. -/
def load32 (m : Mem) (a : ℕ) : UInt32 :=
  (m a).toUInt32 ||| ((m (a + 1)).toUInt32 <<< 8) ||| ((m (a + 2)).toUInt32 <<< 16) |||
    ((m (a + 3)).toUInt32 <<< 24)

/-- The `n` bytes from `a` all hold `c`: what a `memcmp` against a buffer of `c` accepts. -/
def Filled (m : Mem) (a n : ℕ) (c : UInt8) : Prop := window m a n = List.replicate n c

instance (m : Mem) (a n : ℕ) (c : UInt8) : Decidable (Filled m a n c) :=
  inferInstanceAs (Decidable (window m a n = List.replicate n c))

section Stores

variable {m : Mem} {dst src n a : ℕ} {c : UInt8}

theorem memset_of_mem (h₁ : dst ≤ a) (h₂ : a < dst + n) : memset m dst c n a = c := by
  simp [memset, h₁, h₂]

theorem memset_of_not_mem (h : a < dst ∨ dst + n ≤ a) : memset m dst c n a = m a := by
  have : ¬(dst ≤ a ∧ a < dst + n) := by omega
  simp only [memset, this, if_false]

theorem memcpy_of_mem (h₁ : dst ≤ a) (h₂ : a < dst + n) :
    memcpy m dst src n a = m (src + (a - dst)) := by
  simp [memcpy, h₁, h₂]

theorem memcpy_of_not_mem (h : a < dst ∨ dst + n ≤ a) : memcpy m dst src n a = m a := by
  have : ¬(dst ≤ a ∧ a < dst + n) := by omega
  simp only [memcpy, this, if_false]

end Stores

section Windows

variable {m m' : Mem} {a n : ℕ} {c : UInt8}

@[simp] theorem length_window : (window m a n).length = n := by simp [window]

theorem getElem_window {i : ℕ} (hi : i < (window m a n).length) :
    (window m a n)[i] = m (a + i) := by
  simp [window]

theorem window_congr (h : ∀ i < n, m' (a + i) = m (a + i)) : window m' a n = window m a n := by
  apply List.ext_getElem (by simp)
  intro i hi _
  rw [getElem_window, getElem_window]
  exact h i (by simpa using hi)

theorem filled_iff : Filled m a n c ↔ ∀ i < n, m (a + i) = c := by
  rw [Filled, List.eq_replicate_iff]
  constructor
  · rintro ⟨-, hall⟩ i hi
    exact hall _ (List.mem_map.mpr ⟨i, List.mem_range.mpr hi, rfl⟩)
  · intro hall
    refine ⟨length_window, fun b hb ↦ ?_⟩
    obtain ⟨i, hi, rfl⟩ := List.mem_map.mp hb
    exact hall i (List.mem_range.mp hi)

theorem not_filled_of_ne {i : ℕ} (hi : i < n) (hne : m (a + i) ≠ c) : ¬Filled m a n c :=
  fun h ↦ hne (filled_iff.mp h i hi)

end Windows

end Bionic.Lib.ByteMemory
