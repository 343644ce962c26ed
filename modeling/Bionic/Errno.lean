import Mathlib.Data.Int.Notation

/-!
# Error numbers

The values of the error numbers that the modelled functions return or store in `errno`, from
`asm-generic/errno-base.h` and `asm-generic/errno.h`.
-/

set_option autoImplicit false

namespace Bionic

/-- `E2BIG`. -/
def e2big : ℤ := 7

/-- `EINTR`. -/
def eintr : ℤ := 4

/-- `EAGAIN`. -/
def eagain : ℤ := 11

/-- `ENOMEM`. -/
def enomem : ℤ := 12

/-- `EINVAL`. -/
def einval : ℤ := 22

/-- `ENOSPC`. -/
def enospc : ℤ := 28

/-- `ERANGE`. -/
def erange : ℤ := 34

/-- `ENAMETOOLONG`. -/
def enametoolong : ℤ := 36

/-- `EOVERFLOW`. -/
def eoverflow : ℤ := 75

/-- `EILSEQ`. -/
def eilseq : ℤ := 84

/-- `ETIMEDOUT`. -/
def etimedout : ℤ := 110

end Bionic
