import Mathlib.Data.List.GetD

/-!
# `mbstate_t`

The four bytes `__seq` of a conversion state and the helpers of `private/bionic_mbstate.h` that
read and write them. The UTF-8 decoder keeps in them the bytes of a character it has not
finished (`MbState.ofBytes`); the UTF-16 functions keep half of a surrogate pair.

`mbstate_reset` is `MbState.initial` in the models of its callers, and
`mbstate_reset_and_return_illegal` the pair of an illegal result and that state.
-/

set_option autoImplicit false

namespace Bionic.Uchar

/-- `mbstate_t`: its four bytes `__seq`. -/
structure MbState where
  seq : List UInt8
  length_seq : seq.length = 4
  deriving DecidableEq

namespace MbState

/-- The state of `memset(&ps, 0, sizeof(ps))`, and the one `mbstate_reset` leaves. -/
def initial : MbState := ⟨[0, 0, 0, 0], rfl⟩

/-- `mbstate_is_initial`: the four bytes, read as one `uint32_t`, are zero. -/
def isInitial (ps : MbState) : Bool := ps.seq.all (· == 0)

/-- `mbstate_get_byte`. -/
def getByte (ps : MbState) (n : ℕ) : UInt8 := ps.seq.getD n 0

/-- `mbstate_set_byte`. -/
def setByte (ps : MbState) (i : ℕ) (byte : UInt8) : MbState :=
  ⟨ps.seq.set i byte, by rw [List.length_set, ps.length_seq]⟩

/-- `mbstate_bytes_so_far`: the length of the run of bytes that are not zero, read from the
third byte down. -/
def bytesSoFar (ps : MbState) : ℕ :=
  if ps.getByte 2 != 0 then 3
  else if ps.getByte 1 != 0 then 2
  else if ps.getByte 0 != 0 then 1
  else 0

/-- The state that holds the bytes `u` of a character not yet complete, the rest zero. -/
def ofBytes (u : List UInt8) : MbState := ⟨(u ++ [0, 0, 0, 0]).take 4, by simp⟩

/-! ### A state that holds the first bytes of a character -/

@[simp] theorem ofBytes_nil : ofBytes [] = initial := rfl

@[simp] theorem isInitial_initial : initial.isInitial = true := rfl

@[simp] theorem getByte_initial (n : ℕ) : initial.getByte n = 0 := by
  unfold initial getByte
  rcases n with _ | _ | _ | _ | n <;> rfl

theorem isInitial_ofBytes_cons {a : UInt8} (ha : a ≠ 0) (u : List UInt8) :
    (ofBytes (a :: u)).isInitial = false := by
  simp [isInitial, ofBytes, ha]

@[simp] theorem getByte_ofBytes_cons_zero (a : UInt8) (u : List UInt8) :
    (ofBytes (a :: u)).getByte 0 = a := rfl

theorem getByte_ofBytes_three {u : List UInt8} (hu : u.length ≤ 3) : (ofBytes u).getByte 3 = 0 := by
  match u, hu with
  | [], _ | [_], _ | [_, _], _ | [_, _, _], _ => rfl

theorem bytesSoFar_ofBytes {u : List UInt8} (hu : u.length ≤ 3) (hne : ∀ b ∈ u, b ≠ 0) :
    (ofBytes u).bytesSoFar = u.length := by
  match u, hu with
  | [], _ => rfl
  | [a], _ | [_, a], _ | [_, _, a], _ =>
    simp only [List.mem_cons, List.not_mem_nil, or_false] at hne
    simp [bytesSoFar, getByte, ofBytes, hne]

theorem setByte_ofBytes {u : List UInt8} (hu : u.length < 4) (b : UInt8) :
    (ofBytes u).setByte u.length b = ofBytes (u ++ [b]) := by
  match u, hu with
  | [], _ | [_], _ | [_, _], _ | [_, _, _], _ => rfl

end MbState

end Bionic.Uchar
