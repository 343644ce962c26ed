import Mathlib.Data.List.Infix
import Bionic.Lib.Compact

/-!
# `__libc_init_AT_SECURE`: the environment of a secure program

When the kernel sets `AT_SECURE` (a setuid program, or an SELinux transition),
`__libc_init_AT_SECURE` (libc_init_common.cpp) filters the `NULL`-terminated array `env` in place
before `environ` points to it: `__sanitize_environment_variables` keeps an entry when
`__is_valid_environment_variable` accepts it (a NUL within `MAX_ENV_LEN` bytes, and a first `=`
that is not the first byte) and `__is_unsafe_environment_variable` does not (no name of
`UNSAFE_VARIABLE_NAMES` followed by `=` at its start, `env_match`). The filter is
`Lib.Compact.compactFrom` with these checks as its test. Every check records the indices of the
entry's bytes it reads.

`__libc_init_AT_SECURE` leaves `environ` holding, in order, the entries that `kept` accepts
(`libcInitAtSecure_environ`), with all reads of an entry inside its string and its first
`MAX_ENV_LEN` bytes and no slot past the terminator written; so no entry starts with an unsafe name
and `=`, and `getenv` finds none of them. An entry whose first `=` is its first byte is dropped even
when a later `=` follows (`sanitize_drops_leading_equal`).
-/

set_option autoImplicit false
set_option relaxedAutoImplicit false

namespace Bionic.LibcInit.AtSecure

open Bionic.Lib.Compact

/-! ### C strings -/

/-- A C string: its bytes before the terminating NUL. -/
structure CStr where
  bytes : List UInt8
  no_nul : 0 ∉ bytes
  deriving DecidableEq

/-- `s[i]`: the byte at `i`, the NUL at the end. -/
def CStr.get (s : CStr) (i : ℕ) : UInt8 := s.bytes.getD i 0

/-- `'='`. -/
def equalSign : UInt8 := 0x3d

/-! ### The checks -/

/-- `MAX_ENV_LEN`, the kernel's limit on an environment string: `32*4096`. -/
def maxEnvLen : ℕ := 32 * 4096

/-- The loop of `__is_valid_environment_variable` at `pos`, with `first_equal_pos`, for the
`fuel = MAX_ENV_LEN - pos` rounds that `pos < MAX_ENV_LEN` allows: where it stops, the first `=`,
and the indices read. -/
def validScan (name : CStr) : ℕ → ℕ → ℤ → List ℕ → ℕ × ℤ × List ℕ
  | 0, pos, firstEqualPos, reads => (pos, firstEqualPos, reads)
  | fuel + 1, pos, firstEqualPos, reads =>
    let reads := reads ++ [pos]
    if name.get pos = 0 then (pos, firstEqualPos, reads)
    else
      let firstEqualPos :=
        if name.get pos = equalSign ∧ firstEqualPos < 0 then (pos : ℤ) else firstEqualPos
      validScan name fuel (pos + 1) firstEqualPos reads

/-- `__is_valid_environment_variable(name)` on a string of the array, and the indices read. -/
def isValidEnvironmentVariable (name : CStr) : Bool × List ℕ :=
  let (pos, firstEqualPos, reads) := validScan name maxEnvLen 0 (-1) []
  -- no NUL within `MAX_ENV_LEN` bytes
  if maxEnvLen ≤ pos then (false, reads)
  -- no `=`, or the first at the start
  else if firstEqualPos < 1 then (false, reads)
  else (true, reads)

/-- The loop of `env_match` at index `i`, `name` standing for what is left of the name from
`i`: where it stops, what is left of the name, and the indices of `envstr` read. -/
def envMatchLoop (envstr : CStr) : List UInt8 → ℕ → List ℕ → ℕ × List UInt8 × List ℕ
  | [], i, reads => (i, [], reads ++ [i])
  | c :: name, i, reads =>
    if envstr.get i = c then envMatchLoop envstr name (i + 1) (reads ++ [i])
    else (i, c :: name, reads ++ [i])

/-- `env_match(envstr, name)`: the index after `name=` when `envstr` starts with it, and the
indices of `envstr` read. -/
def envMatch (envstr : CStr) (name : List UInt8) : Option ℕ × List ℕ :=
  let (i, rest, reads) := envMatchLoop envstr name 0 []
  -- `name[i] == '\0'`, and then `envstr[i] == '='`
  if rest = [] then (if envstr.get i = equalSign then some (i + 1) else none, reads ++ [i])
  else (none, reads)

/-- `UNSAFE_VARIABLE_NAMES`. -/
def unsafeVariableNames : List (List UInt8) :=
  [
    -- "ANDROID_DNS_MODE"
    [0x41, 0x4e, 0x44, 0x52, 0x4f, 0x49, 0x44, 0x5f, 0x44, 0x4e, 0x53, 0x5f, 0x4d, 0x4f,
      0x44, 0x45],
    -- "GCONV_PATH"
    [0x47, 0x43, 0x4f, 0x4e, 0x56, 0x5f, 0x50, 0x41, 0x54, 0x48],
    -- "GETCONF_DIR"
    [0x47, 0x45, 0x54, 0x43, 0x4f, 0x4e, 0x46, 0x5f, 0x44, 0x49, 0x52],
    -- "HOSTALIASES"
    [0x48, 0x4f, 0x53, 0x54, 0x41, 0x4c, 0x49, 0x41, 0x53, 0x45, 0x53],
    -- "JE_MALLOC_CONF"
    [0x4a, 0x45, 0x5f, 0x4d, 0x41, 0x4c, 0x4c, 0x4f, 0x43, 0x5f, 0x43, 0x4f, 0x4e, 0x46],
    -- "LD_AOUT_LIBRARY_PATH"
    [0x4c, 0x44, 0x5f, 0x41, 0x4f, 0x55, 0x54, 0x5f, 0x4c, 0x49, 0x42, 0x52, 0x41, 0x52,
      0x59, 0x5f, 0x50, 0x41, 0x54, 0x48],
    -- "LD_AOUT_PRELOAD"
    [0x4c, 0x44, 0x5f, 0x41, 0x4f, 0x55, 0x54, 0x5f, 0x50, 0x52, 0x45, 0x4c, 0x4f, 0x41,
      0x44],
    -- "LD_AUDIT"
    [0x4c, 0x44, 0x5f, 0x41, 0x55, 0x44, 0x49, 0x54],
    -- "LD_CONFIG_FILE"
    [0x4c, 0x44, 0x5f, 0x43, 0x4f, 0x4e, 0x46, 0x49, 0x47, 0x5f, 0x46, 0x49, 0x4c, 0x45],
    -- "LD_DEBUG"
    [0x4c, 0x44, 0x5f, 0x44, 0x45, 0x42, 0x55, 0x47],
    -- "LD_DEBUG_OUTPUT"
    [0x4c, 0x44, 0x5f, 0x44, 0x45, 0x42, 0x55, 0x47, 0x5f, 0x4f, 0x55, 0x54, 0x50, 0x55,
      0x54],
    -- "LD_DYNAMIC_WEAK"
    [0x4c, 0x44, 0x5f, 0x44, 0x59, 0x4e, 0x41, 0x4d, 0x49, 0x43, 0x5f, 0x57, 0x45, 0x41,
      0x4b],
    -- "LD_HWASAN"
    [0x4c, 0x44, 0x5f, 0x48, 0x57, 0x41, 0x53, 0x41, 0x4e],
    -- "LD_LIBRARY_PATH"
    [0x4c, 0x44, 0x5f, 0x4c, 0x49, 0x42, 0x52, 0x41, 0x52, 0x59, 0x5f, 0x50, 0x41, 0x54,
      0x48],
    -- "LD_ORIGIN_PATH"
    [0x4c, 0x44, 0x5f, 0x4f, 0x52, 0x49, 0x47, 0x49, 0x4e, 0x5f, 0x50, 0x41, 0x54, 0x48],
    -- "LD_PRELOAD"
    [0x4c, 0x44, 0x5f, 0x50, 0x52, 0x45, 0x4c, 0x4f, 0x41, 0x44],
    -- "LD_PROFILE"
    [0x4c, 0x44, 0x5f, 0x50, 0x52, 0x4f, 0x46, 0x49, 0x4c, 0x45],
    -- "LD_SHOW_AUXV"
    [0x4c, 0x44, 0x5f, 0x53, 0x48, 0x4f, 0x57, 0x5f, 0x41, 0x55, 0x58, 0x56],
    -- "LD_USE_LOAD_BIAS"
    [0x4c, 0x44, 0x5f, 0x55, 0x53, 0x45, 0x5f, 0x4c, 0x4f, 0x41, 0x44, 0x5f, 0x42, 0x49,
      0x41, 0x53],
    -- "LIBC_DEBUG_MALLOC_OPTIONS"
    [0x4c, 0x49, 0x42, 0x43, 0x5f, 0x44, 0x45, 0x42, 0x55, 0x47, 0x5f, 0x4d, 0x41, 0x4c,
      0x4c, 0x4f, 0x43, 0x5f, 0x4f, 0x50, 0x54, 0x49, 0x4f, 0x4e, 0x53],
    -- "LIBC_HOOKS_ENABLE"
    [0x4c, 0x49, 0x42, 0x43, 0x5f, 0x48, 0x4f, 0x4f, 0x4b, 0x53, 0x5f, 0x45, 0x4e, 0x41,
      0x42, 0x4c, 0x45],
    -- "LOCALDOMAIN"
    [0x4c, 0x4f, 0x43, 0x41, 0x4c, 0x44, 0x4f, 0x4d, 0x41, 0x49, 0x4e],
    -- "LOCPATH"
    [0x4c, 0x4f, 0x43, 0x50, 0x41, 0x54, 0x48],
    -- "MALLOC_CHECK_"
    [0x4d, 0x41, 0x4c, 0x4c, 0x4f, 0x43, 0x5f, 0x43, 0x48, 0x45, 0x43, 0x4b, 0x5f],
    -- "MALLOC_CONF"
    [0x4d, 0x41, 0x4c, 0x4c, 0x4f, 0x43, 0x5f, 0x43, 0x4f, 0x4e, 0x46],
    -- "MALLOC_TRACE"
    [0x4d, 0x41, 0x4c, 0x4c, 0x4f, 0x43, 0x5f, 0x54, 0x52, 0x41, 0x43, 0x45],
    -- "NIS_PATH"
    [0x4e, 0x49, 0x53, 0x5f, 0x50, 0x41, 0x54, 0x48],
    -- "NLSPATH"
    [0x4e, 0x4c, 0x53, 0x50, 0x41, 0x54, 0x48],
    -- "RESOLV_HOST_CONF"
    [0x52, 0x45, 0x53, 0x4f, 0x4c, 0x56, 0x5f, 0x48, 0x4f, 0x53, 0x54, 0x5f, 0x43, 0x4f,
      0x4e, 0x46],
    -- "RES_OPTIONS"
    [0x52, 0x45, 0x53, 0x5f, 0x4f, 0x50, 0x54, 0x49, 0x4f, 0x4e, 0x53],
    -- "SCUDO_OPTIONS"
    [0x53, 0x43, 0x55, 0x44, 0x4f, 0x5f, 0x4f, 0x50, 0x54, 0x49, 0x4f, 0x4e, 0x53],
    -- "TMPDIR"
    [0x54, 0x4d, 0x50, 0x44, 0x49, 0x52],
    -- "TZDIR"
    [0x54, 0x5a, 0x44, 0x49, 0x52]
  ]

/-- The loop of `__is_unsafe_environment_variable` over `names`: whether one matches, and the
indices read. -/
def scanUnsafeNames (name : CStr) : List (List UInt8) → List ℕ → Bool × List ℕ
  | [], reads => (false, reads)
  | n :: names, reads =>
    let (r, matchReads) := envMatch name n
    if r.isSome then (true, reads ++ matchReads) else scanUnsafeNames name names (reads ++ matchReads)

/-- `__is_unsafe_environment_variable(name)`, and the indices read. -/
def isUnsafeEnvironmentVariable (name : CStr) : Bool × List ℕ :=
  scanUnsafeNames name unsafeVariableNames []

/-- The body of `__sanitize_environment_variables`' loop on an entry: kept when valid and not
unsafe, with the indices of its bytes read. -/
def keepEnvironmentVariable (e : CStr) : Bool × List ℕ :=
  let (valid, validReads) := isValidEnvironmentVariable e
  if !valid then (false, validReads)
  else
    let (isUnsafe, matchReads) := isUnsafeEnvironmentVariable e
    (!isUnsafe, validReads ++ matchReads)

/-- `__sanitize_environment_variables(env)` within `fuel` rounds: the array after it, and the
bytes read by slot. -/
def sanitizeEnvironmentVariables (env : ℕ → Option CStr) (fuel : ℕ) :
    Option ((ℕ → Option CStr) × List (ℕ × ℕ)) :=
  compactFrom keepEnvironmentVariable fuel env 0 0 []

/-- `__libc_init_AT_SECURE(env)` with `getauxval(AT_SECURE)` returning `isAtSecure`: the array
`environ` then points to, and the bytes read. -/
def libcInitAtSecure (isAtSecure : ℕ) (env : ℕ → Option CStr) (fuel : ℕ) :
    Option ((ℕ → Option CStr) × List (ℕ × ℕ)) :=
  if isAtSecure ≠ 0 then sanitizeEnvironmentVariables env fuel else some (env, [])

/-- `getenv(name)` (upstream) over the entries: the value of the first entry whose text before
its first `=` is `name`. -/
def getenv (name : List UInt8) : List CStr → Option (List UInt8)
  | [] => none
  | e :: entries =>
    match e.bytes.findIdx? (· = equalSign) with
    | some k => if e.bytes.take k = name then some (e.bytes.drop (k + 1)) else getenv name entries
    | none => getenv name entries

/-! ### What the sanitizer keeps -/

/-- An entry shorter than `MAX_ENV_LEN` whose first `=` is at some `k ≥ 1` and whose name before
it is none of `UNSAFE_VARIABLE_NAMES`. -/
def kept (e : CStr) : Bool :=
  decide (e.bytes.length < maxEnvLen) &&
    match e.bytes.findIdx? (· = equalSign) with
    | some k => decide (1 ≤ k) && decide (e.bytes.take k ∉ unsafeVariableNames)
    | none => false

example : validScan ⟨[0x61, 0x3d], by decide⟩ 8 0 (-1) [] = (2, 1, [0, 1, 2]) := by
  simp [validScan, CStr.get, equalSign]

example : envMatchLoop ⟨[0x61, 0x3d], by decide⟩ [0x61] 0 [] = (1, [], [0, 1]) := by
  simp [envMatchLoop, CStr.get]

/-! ### Reading a C string -/

theorem CStr.get_of_lt (s : CStr) {i : ℕ} (h : i < s.bytes.length) : s.get i = s.bytes[i] := by
  simp [CStr.get, List.getD_eq_getElem?_getD, h]

theorem CStr.get_eq_zero_iff (s : CStr) (i : ℕ) : s.get i = 0 ↔ s.bytes.length ≤ i := by
  constructor
  · intro h
    by_contra hlt
    rw [s.get_of_lt (not_le.mp hlt)] at h
    exact s.no_nul (h ▸ List.getElem_mem _)
  · intro h
    simp [CStr.get, List.getD_eq_getElem?_getD, List.getElem?_eq_none h]

/-! ### `__is_valid_environment_variable` -/

theorem validScan_fst (name : CStr) :
    ∀ (fuel pos : ℕ) (first : ℤ) (reads : List ℕ), pos ≤ name.bytes.length →
      (validScan name fuel pos first reads).1 = min (pos + fuel) name.bytes.length := by
  intro fuel
  induction fuel with
  | zero =>
    intro pos first reads hpos
    simp [validScan, hpos]
  | succ fuel ih =>
    intro pos first reads hpos
    by_cases hnul : name.get pos = 0
    · have hend := (name.get_eq_zero_iff pos).mp hnul
      simp only [validScan, hnul, if_true]
      omega
    · have hlt : pos < name.bytes.length := not_le.mp fun h ↦ hnul ((name.get_eq_zero_iff pos).mpr h)
      simp only [validScan, hnul, if_false]
      rw [ih (pos + 1) _ _ hlt]
      omega

theorem validScan_first_of_nonneg (name : CStr) :
    ∀ (fuel pos : ℕ) {first : ℤ} (reads : List ℕ), 0 ≤ first →
      (validScan name fuel pos first reads).2.1 = first := by
  intro fuel
  induction fuel with
  | zero => intro pos first reads _; rfl
  | succ fuel ih =>
    intro pos first reads hfirst
    by_cases hnul : name.get pos = 0
    · simp [validScan, hnul]
    · simp only [validScan, hnul, if_false]
      rw [if_neg (by omega)]
      exact ih (pos + 1) _ hfirst

theorem validScan_first (name : CStr) :
    ∀ (fuel pos : ℕ) (reads : List ℕ), pos ≤ name.bytes.length →
      (validScan name fuel pos (-1) reads).2.1 =
        (((name.bytes.drop pos).take fuel).findIdx? (· = equalSign)).elim (-1)
          fun k ↦ ((pos + k : ℕ) : ℤ) := by
  intro fuel
  induction fuel with
  | zero => intro pos reads _; simp [validScan]
  | succ fuel ih =>
    intro pos reads hpos
    by_cases hnul : name.get pos = 0
    · have hend := (name.get_eq_zero_iff pos).mp hnul
      simp [validScan, hnul, List.drop_eq_nil_of_le hend]
    · have hlt : pos < name.bytes.length := not_le.mp fun h ↦ hnul ((name.get_eq_zero_iff pos).mpr h)
      have hcons := List.drop_eq_getElem_cons hlt
      simp only [validScan, hnul, if_false]
      rw [name.get_of_lt hlt, hcons, List.take_succ_cons, List.findIdx?_cons]
      by_cases heq : name.bytes[pos] = equalSign
      · -- the first `=`: it is at `pos`
        rw [if_pos ⟨heq, by omega⟩, validScan_first_of_nonneg name fuel (pos + 1) _ (by omega)]
        simp [heq]
      · rw [if_neg (by tauto), ih (pos + 1) _ hlt]
        simp only [heq, decide_false, Bool.false_eq_true, if_false]
        cases ((name.bytes.drop (pos + 1)).take fuel).findIdx? (· = equalSign) with
        | none => rfl
        | some k =>
          simp only [Option.elim, Option.map_some]
          rw [show pos + 1 + k = pos + (k + 1) by omega]

theorem validScan_reads (name : CStr) :
    ∀ (fuel pos : ℕ) (first : ℤ) (reads : List ℕ), pos ≤ name.bytes.length →
      ∀ i ∈ (validScan name fuel pos first reads).2.2,
        i ∈ reads ∨ (i < pos + fuel ∧ i ≤ name.bytes.length) := by
  intro fuel
  induction fuel with
  | zero => intro pos first reads _ i hi; exact .inl hi
  | succ fuel ih =>
    intro pos first reads hpos i hi
    by_cases hnul : name.get pos = 0
    · simp only [validScan, hnul, if_true, List.mem_append, List.mem_singleton] at hi
      rcases hi with hi | rfl
      · exact .inl hi
      · exact .inr ⟨by omega, hpos⟩
    · have hlt : pos < name.bytes.length := not_le.mp fun h ↦ hnul ((name.get_eq_zero_iff pos).mpr h)
      simp only [validScan, hnul, if_false] at hi
      rcases ih (pos + 1) _ _ hlt i hi with hi | ⟨h1, h2⟩
      · rcases List.mem_append.mp hi with hi | hi
        · exact .inl hi
        · rw [List.mem_singleton.mp hi]
          exact .inr ⟨by omega, hpos⟩
      · exact .inr ⟨by omega, h2⟩

/-- `__is_valid_environment_variable` accepts a string shorter than `MAX_ENV_LEN` whose first `=`
is not its first byte. -/
theorem isValidEnvironmentVariable_fst_eq_true_iff (name : CStr) :
    (isValidEnvironmentVariable name).1 = true ↔
      name.bytes.length < maxEnvLen ∧ ∃ k, name.bytes.findIdx? (· = equalSign) = some k ∧ 1 ≤ k := by
  have hpos := validScan_fst name maxEnvLen 0 (-1) [] (Nat.zero_le _)
  have hfirst := validScan_first name maxEnvLen 0 [] (Nat.zero_le _)
  simp only [Nat.zero_add, List.drop_zero] at hpos hfirst
  unfold isValidEnvironmentVariable
  rcases hscan : validScan name maxEnvLen 0 (-1) [] with ⟨pos, first, reads⟩
  rw [hscan] at hpos hfirst
  dsimp only at hpos hfirst ⊢
  by_cases hlen : name.bytes.length < maxEnvLen
  · rw [List.take_of_length_le hlen.le] at hfirst
    rw [if_neg (by omega)]
    cases hk : name.bytes.findIdx? (· = equalSign) with
    | none =>
      rw [hk] at hfirst
      simp [hfirst]
    | some k =>
      rw [hk] at hfirst
      simp only [Option.elim] at hfirst
      rw [hfirst]
      by_cases hk1 : 1 ≤ k
      · rw [if_neg (by omega)]
        exact ⟨fun _ ↦ ⟨hlen, k, rfl, hk1⟩, fun _ ↦ rfl⟩
      · rw [if_pos (by omega)]
        simp only [Bool.false_eq_true, false_iff, not_and, Option.some.injEq, exists_eq_left']
        intro _
        exact hk1
  · rw [if_pos (by omega)]
    simp [hlen]

theorem isValidEnvironmentVariable_reads (name : CStr) :
    ∀ i ∈ (isValidEnvironmentVariable name).2, i ≤ name.bytes.length ∧ i < maxEnvLen := by
  intro i hi
  have hreads := validScan_reads name maxEnvLen 0 (-1) [] (Nat.zero_le _) i
  unfold isValidEnvironmentVariable at hi
  rcases hscan : validScan name maxEnvLen 0 (-1) [] with ⟨pos, first, reads⟩
  rw [hscan] at hi hreads
  dsimp only at hi hreads
  split_ifs at hi <;>
    · rcases hreads hi with hi | ⟨h1, h2⟩
      · simp at hi
      · exact ⟨h2, by omega⟩

/-! ### `env_match` and `__is_unsafe_environment_variable` -/

theorem envMatchLoop_rest_eq_nil_iff (envstr : CStr) :
    ∀ (name : List UInt8) (i : ℕ) (reads : List ℕ), 0 ∉ name →
      ((envMatchLoop envstr name i reads).2.1 = [] ↔ name <+: envstr.bytes.drop i) := by
  intro name
  induction name with
  | nil => intro i reads _; simp [envMatchLoop]
  | cons c name ih =>
    intro i reads hname
    have hc : c ≠ 0 := fun h ↦ hname (h ▸ List.mem_cons_self)
    have hrest : 0 ∉ name := fun h ↦ hname (List.mem_cons_of_mem _ h)
    by_cases hget : envstr.get i = c
    · -- `c` is not the NUL, so `i` is inside the string
      have hlt : i < envstr.bytes.length :=
        not_le.mp fun h ↦ hc (hget ▸ (envstr.get_eq_zero_iff i).mpr h)
      rw [envMatchLoop, if_pos hget, ih (i + 1) _ hrest, List.drop_eq_getElem_cons hlt,
        List.cons_prefix_cons, ← envstr.get_of_lt hlt, hget]
      simp
    · rw [envMatchLoop, if_neg hget]
      simp only [reduceCtorEq, false_iff]
      intro hpre
      apply hget
      have hlt : i < envstr.bytes.length := by
        have := hpre.length_le
        simp at this
        omega
      rw [List.drop_eq_getElem_cons hlt, List.cons_prefix_cons] at hpre
      rw [envstr.get_of_lt hlt, hpre.1]

theorem envMatchLoop_fst (envstr : CStr) :
    ∀ (name : List UInt8) (i : ℕ) (reads : List ℕ), (envMatchLoop envstr name i reads).2.1 = [] →
      (envMatchLoop envstr name i reads).1 = i + name.length := by
  intro name
  induction name with
  | nil => intro i reads _; simp [envMatchLoop]
  | cons c name ih =>
    intro i reads h
    by_cases hget : envstr.get i = c
    · rw [envMatchLoop, if_pos hget] at h ⊢
      rw [ih (i + 1) _ h]
      simp
      omega
    · rw [envMatchLoop, if_neg hget] at h
      simp at h

theorem envMatchLoop_reads (envstr : CStr) :
    ∀ (name : List UInt8) (i : ℕ) (reads : List ℕ), 0 ∉ name → i ≤ envstr.bytes.length →
      ∀ j ∈ (envMatchLoop envstr name i reads).2.2, j ∈ reads ∨ j ≤ envstr.bytes.length := by
  intro name
  induction name with
  | nil =>
    intro i reads _ hi j hj
    simp only [envMatchLoop, List.mem_append, List.mem_singleton] at hj
    rcases hj with hj | rfl
    · exact .inl hj
    · exact .inr hi
  | cons c name ih =>
    intro i reads hname hi j hj
    have hc : c ≠ 0 := fun h ↦ hname (h ▸ List.mem_cons_self)
    have hrest : 0 ∉ name := fun h ↦ hname (List.mem_cons_of_mem _ h)
    by_cases hget : envstr.get i = c
    · have hlt : i < envstr.bytes.length :=
        not_le.mp fun h ↦ hc (hget ▸ (envstr.get_eq_zero_iff i).mpr h)
      rw [envMatchLoop, if_pos hget] at hj
      rcases ih (i + 1) _ hrest hlt j hj with hj | hj
      · rcases List.mem_append.mp hj with hj | hj
        · exact .inl hj
        · rw [List.mem_singleton.mp hj]
          exact .inr hi
      · exact .inr hj
    · rw [envMatchLoop, if_neg hget] at hj
      rcases List.mem_append.mp hj with hj | hj
      · exact .inl hj
      · rw [List.mem_singleton.mp hj]
        exact .inr hi

theorem envMatch_isSome_iff (envstr : CStr) {name : List UInt8} (hname : 0 ∉ name) :
    (envMatch envstr name).1.isSome ↔ name ++ [equalSign] <+: envstr.bytes := by
  have hrest := envMatchLoop_rest_eq_nil_iff envstr name 0 [] hname
  have hfst := envMatchLoop_fst envstr name 0 []
  rw [List.drop_zero] at hrest
  unfold envMatch
  rcases hloop : envMatchLoop envstr name 0 [] with ⟨i, rest, reads⟩
  rw [hloop] at hrest hfst
  dsimp only at hrest hfst ⊢
  by_cases hnil : rest = []
  · -- all of `name` matched: `envstr` goes on with `=` or not
    have hpre := hrest.mp hnil
    have hi : i = name.length := by rw [hfst hnil, Nat.zero_add]
    have hlen : name.length ≤ envstr.bytes.length := hpre.length_le
    rw [if_pos hnil, List.prefix_iff_eq_take, List.length_append, List.length_singleton,
      List.take_add_one, ← List.prefix_iff_eq_take.mp hpre]
    by_cases hlt : name.length < envstr.bytes.length
    · rw [List.getElem?_eq_getElem hlt, hi, ← envstr.get_of_lt hlt]
      by_cases heq : envstr.get name.length = equalSign
      · simp [heq]
      · simp [heq, Ne.symm heq]
    · have hend : envstr.get name.length = 0 := (envstr.get_eq_zero_iff _).mpr (by omega)
      rw [List.getElem?_eq_none (by omega), hi, hend]
      simp [equalSign]
  · rw [if_neg hnil]
    simp only [Option.isSome_none, Bool.false_eq_true, false_iff]
    intro hpre
    exact hnil (hrest.mpr ((List.prefix_append name _).trans hpre))

theorem envMatch_reads (envstr : CStr) {name : List UInt8} (hname : 0 ∉ name) :
    ∀ j ∈ (envMatch envstr name).2, j ≤ envstr.bytes.length := by
  intro j hj
  have hreads := envMatchLoop_reads envstr name 0 [] hname (Nat.zero_le _) j
  have hrest := envMatchLoop_rest_eq_nil_iff envstr name 0 [] hname
  have hfst := envMatchLoop_fst envstr name 0 []
  unfold envMatch at hj
  rcases hloop : envMatchLoop envstr name 0 [] with ⟨i, rest, reads⟩
  rw [hloop] at hj hreads hrest hfst
  dsimp only at hj hreads hrest hfst
  have hmatched : rest = [] → i ≤ envstr.bytes.length := fun hnil ↦ by
    have := ((hrest.mp hnil)).length_le
    rw [hfst hnil]
    simp at this ⊢
    omega
  by_cases hnil : rest = []
  · -- the reads of the loop, and `envstr[i]` once more
    rw [if_pos hnil] at hj
    have hj' : j ∈ reads ++ [i] := by
      split_ifs at hj <;> exact hj
    rcases List.mem_append.mp hj' with hj | hj
    · rcases hreads hj with hj | hj
      · simp at hj
      · exact hj
    · rw [List.mem_singleton.mp hj]
      exact hmatched hnil
  · rw [if_neg hnil] at hj
    rcases hreads hj with hj | hj
    · simp at hj
    · exact hj

theorem unsafeVariableNames_no_nul_no_equal :
    ∀ n ∈ unsafeVariableNames, 0 ∉ n ∧ equalSign ∉ n := by
  decide

theorem scanUnsafeNames_fst_eq_true_iff (e : CStr) :
    ∀ (names : List (List UInt8)) (reads : List ℕ), (∀ n ∈ names, 0 ∉ n) →
      ((scanUnsafeNames e names reads).1 = true ↔ ∃ n ∈ names, n ++ [equalSign] <+: e.bytes) := by
  intro names
  induction names with
  | nil => intro reads _; simp [scanUnsafeNames]
  | cons n names ih =>
    intro reads hnames
    have hn := envMatch_isSome_iff e (hnames n List.mem_cons_self)
    have hrest := ih (reads ++ (envMatch e n).2) fun m hm ↦ hnames m (List.mem_cons_of_mem _ hm)
    simp only [scanUnsafeNames]
    by_cases hmatch : (envMatch e n).1.isSome = true
    · rw [if_pos hmatch]
      exact ⟨fun _ ↦ ⟨n, List.mem_cons_self, hn.mp hmatch⟩, fun _ ↦ rfl⟩
    · rw [if_neg hmatch, hrest]
      constructor
      · rintro ⟨m, hm, hpre⟩
        exact ⟨m, List.mem_cons_of_mem _ hm, hpre⟩
      · rintro ⟨m, hm, hpre⟩
        rcases List.mem_cons.mp hm with rfl | hm
        · exact absurd (hn.mpr hpre) hmatch
        · exact ⟨m, hm, hpre⟩

theorem scanUnsafeNames_reads (e : CStr) :
    ∀ (names : List (List UInt8)) (reads : List ℕ), (∀ n ∈ names, 0 ∉ n) →
      ∀ j ∈ (scanUnsafeNames e names reads).2, j ∈ reads ∨ j ≤ e.bytes.length := by
  intro names
  induction names with
  | nil => intro reads _ j hj; exact .inl hj
  | cons n names ih =>
    intro reads hnames j hj
    have hn := envMatch_reads e (hnames n List.mem_cons_self)
    simp only [scanUnsafeNames] at hj
    split_ifs at hj
    · rcases List.mem_append.mp hj with hj | hj
      · exact .inl hj
      · exact .inr (hn j hj)
    · rcases ih _ (fun m hm ↦ hnames m (List.mem_cons_of_mem _ hm)) j hj with hj | hj
      · rcases List.mem_append.mp hj with hj | hj
        · exact .inl hj
        · exact .inr (hn j hj)
      · exact .inr hj

/-- For a string whose first `=` is at `k`, a name without `=` followed by `=` starts the string
exactly when it is the text before `k`. -/
theorem append_equal_prefix_iff {bytes name : List UInt8} {k : ℕ}
    (hk : bytes.findIdx? (· = equalSign) = some k) (hname : equalSign ∉ name) :
    name ++ [equalSign] <+: bytes ↔ bytes.take k = name := by
  obtain ⟨hlt, hat, hbefore⟩ := List.findIdx?_eq_some_iff_getElem.mp hk
  have hatk : bytes[k] = equalSign := by simpa using hat
  constructor
  · intro hpre
    obtain ⟨rest, rfl⟩ := hpre
    -- the first `=` of `name ++ = :: rest` is the one after `name`
    have hfirst : (name ++ [equalSign] ++ rest).findIdx? (· = equalSign) = some name.length := by
      rw [List.findIdx?_eq_some_iff_getElem]
      refine ⟨by simp, by simp, fun j hj ↦ ?_⟩
      rw [List.getElem_append_left (by simp; omega), List.getElem_append_left hj]
      have hne : name[j] ≠ equalSign := fun h ↦ hname (h ▸ List.getElem_mem hj)
      simpa using hne
    rw [hk, Option.some.injEq] at hfirst
    rw [hfirst, List.append_assoc, List.take_left]
  · intro htake
    rw [← htake]
    have hsucc : bytes.take (k + 1) = bytes.take k ++ [equalSign] := by
      rw [List.take_add_one, List.getElem?_eq_getElem hlt, hatk]
      rfl
    rw [← hsucc]
    exact List.take_prefix _ _

/-- On a string whose first `=` is at `k`, `__is_unsafe_environment_variable` asks whether the
text before it is a name of the table. -/
theorem isUnsafeEnvironmentVariable_fst {e : CStr} {k : ℕ}
    (hk : e.bytes.findIdx? (· = equalSign) = some k) :
    (isUnsafeEnvironmentVariable e).1 = decide (e.bytes.take k ∈ unsafeVariableNames) := by
  have hiff := scanUnsafeNames_fst_eq_true_iff e unsafeVariableNames []
    fun n hn ↦ (unsafeVariableNames_no_nul_no_equal n hn).1
  rw [Bool.eq_iff_iff, decide_eq_true_iff]
  unfold isUnsafeEnvironmentVariable
  rw [hiff]
  constructor
  · rintro ⟨n, hn, hpre⟩
    rw [(append_equal_prefix_iff hk (unsafeVariableNames_no_nul_no_equal n hn).2).mp hpre]
    exact hn
  · intro hmem
    exact ⟨_, hmem, (append_equal_prefix_iff hk
      (unsafeVariableNames_no_nul_no_equal _ hmem).2).mpr rfl⟩

/-! ### One round of the loop -/

theorem keepEnvironmentVariable_fst (e : CStr) : (keepEnvironmentVariable e).1 = kept e := by
  have hvalid := isValidEnvironmentVariable_fst_eq_true_iff e
  unfold keepEnvironmentVariable kept
  rcases hcheck : isValidEnvironmentVariable e with ⟨valid, validReads⟩
  rw [hcheck] at hvalid
  dsimp only at hvalid ⊢
  cases valid with
  | false =>
    -- invalid: too long, no `=`, or the first `=` at the start
    simp only [Bool.not_false, if_true]
    simp only [Bool.false_eq_true, false_iff, not_and, not_exists] at hvalid
    by_cases hlen : e.bytes.length < maxEnvLen
    · cases hk : e.bytes.findIdx? (· = equalSign) with
      | none => simp [hlen]
      | some k =>
        have := hvalid hlen k hk
        simp [hlen]
        omega
    · simp [hlen]
  | true =>
    obtain ⟨hlen, k, hk, hk1⟩ := hvalid.mp rfl
    simp only [Bool.not_true, Bool.false_eq_true, if_false]
    rw [isUnsafeEnvironmentVariable_fst hk, hk]
    simp [hlen, hk1]

theorem keepEnvironmentVariable_reads (e : CStr) :
    ∀ j ∈ (keepEnvironmentVariable e).2, j ≤ e.bytes.length ∧ j < maxEnvLen := by
  intro j hj
  have hvalid := isValidEnvironmentVariable_fst_eq_true_iff e
  have hvalidReads := isValidEnvironmentVariable_reads e
  have hmatchReads := scanUnsafeNames_reads e unsafeVariableNames []
    (fun n hn ↦ (unsafeVariableNames_no_nul_no_equal n hn).1) j
  unfold keepEnvironmentVariable at hj
  rcases hcheck : isValidEnvironmentVariable e with ⟨valid, validReads⟩
  rw [hcheck] at hj hvalid hvalidReads
  dsimp only at hj hvalid hvalidReads
  cases valid with
  | false => exact hvalidReads j hj
  | true =>
    -- `env_match` runs only on a valid entry, shorter than `MAX_ENV_LEN`
    have hlen := (hvalid.mp rfl).1
    simp only [Bool.not_true, Bool.false_eq_true, if_false] at hj
    rcases List.mem_append.mp hj with hj | hj
    · exact hvalidReads j hj
    · rcases hmatchReads hj with hj | hj
      · simp at hj
      · exact ⟨hj, by omega⟩

/-! ### The environment after `__libc_init_AT_SECURE` -/

theorem not_unsafe_prefix_of_kept {e : CStr} (he : kept e = true) {n : List UInt8}
    (hn : n ∈ unsafeVariableNames) : ¬ n ++ [equalSign] <+: e.bytes := by
  unfold kept at he
  cases hk : e.bytes.findIdx? (· = equalSign) with
  | none => simp [hk] at he
  | some k =>
    simp only [hk, Bool.and_eq_true, decide_eq_true_eq] at he
    rw [append_equal_prefix_iff hk (unsafeVariableNames_no_nul_no_equal n hn).2]
    rintro rfl
    exact he.2.2 hn

theorem getenv_eq_none_of_kept {n : List UInt8} (hn : n ∈ unsafeVariableNames) :
    ∀ entries : List CStr, (∀ e ∈ entries, kept e = true) → getenv n entries = none := by
  intro entries
  induction entries with
  | nil => intro _; rfl
  | cons e entries ih =>
    intro hkept
    have hrest := ih fun e' he' ↦ hkept e' (List.mem_cons_of_mem _ he')
    have he := hkept e List.mem_cons_self
    unfold kept at he
    unfold getenv
    cases hk : e.bytes.findIdx? (· = equalSign) with
    | none => exact hrest
    | some k =>
      simp only [hk, Bool.and_eq_true, decide_eq_true_eq] at he
      have hne : e.bytes.take k ≠ n := fun h ↦ he.2.2 (h ▸ hn)
      simp only [if_neg hne]
      exact hrest

/-- What `__libc_init_AT_SECURE` leaves when `AT_SECURE` is set, from an array holding `entries`:
`environ` holds the kept entries in order, none of which starts with an unsafe name and `=` or
is found by `getenv` under one; every read of an entry is inside its string and its first
`MAX_ENV_LEN` bytes; no slot past the old terminator is written. -/
structure Sanitized (entries : List CStr) (env env' : ℕ → Option CStr) (reads : List (ℕ × ℕ)) :
    Prop where
  environ : Holds env' 0 (entries.filter kept)
  no_unsafe_prefix : ∀ n ∈ unsafeVariableNames, ∀ e ∈ entries.filter kept,
    ¬ n ++ [equalSign] <+: e.bytes
  getenv_unsafe : ∀ n ∈ unsafeVariableNames, getenv n (entries.filter kept) = none
  reads_inside : ∀ p ∈ reads, ∃ e, entries[p.1]? = some e ∧ p.2 ≤ e.bytes.length ∧ p.2 < maxEnvLen
  above : ∀ i, entries.length < i → env' i = env i

theorem libcInitAtSecure_environ {isAtSecure : ℕ} (hsecure : isAtSecure ≠ 0)
    (env : ℕ → Option CStr) (entries : List CStr) (henv : Holds env 0 entries) :
    ∃ env' reads, libcInitAtSecure isAtSecure env (entries.length + 1) = some (env', reads) ∧
      Sanitized entries env env' reads := by
  obtain ⟨env', reads, hrun, hc⟩ := compactFrom_spec keepEnvironmentVariable entries env 0 0
    (entries.length + 1) [] le_rfl henv (Nat.lt_succ_self _)
  have hfilter : (entries.filter fun x ↦ (keepEnvironmentVariable x).1) = entries.filter kept := by
    congr 1
    funext e
    exact keepEnvironmentVariable_fst e
  have hkept : ∀ e ∈ entries.filter kept, kept e = true := fun e he ↦ (List.mem_filter.mp he).2
  refine ⟨env', reads, by rw [libcInitAtSecure, if_pos hsecure]; exact hrun, ?_⟩
  refine ⟨hfilter ▸ hc.holds, fun n hn e he ↦ not_unsafe_prefix_of_kept (hkept e he) hn,
    fun n hn ↦ getenv_eq_none_of_kept hn _ hkept, fun p hp ↦ ?_, fun i hi ↦ hc.above i (by omega)⟩
  -- a read in the log is of the entry at its slot
  rcases hc.log_mem p hp with hp | ⟨j, e, he, hslot, hread⟩
  · simp at hp
  · obtain ⟨h1, h2⟩ := keepEnvironmentVariable_reads e p.2 hread
    exact ⟨e, by rw [hslot, Nat.zero_add]; exact he, h1, h2⟩

/-- `LD_PRELOAD=/x` and `PATH=/b`, in an array. -/
def ldPreloadEntry : CStr :=
  ⟨[0x4c, 0x44, 0x5f, 0x50, 0x52, 0x45, 0x4c, 0x4f, 0x41, 0x44, 0x3d, 0x2f, 0x78], by decide⟩

def pathEntry : CStr := ⟨[0x50, 0x41, 0x54, 0x48, 0x3d, 0x2f, 0x62], by decide⟩

/-- The array holding `entries` from slot 0. -/
def envOf (entries : List CStr) : ℕ → Option CStr := fun i ↦ entries[i]?

theorem holds_envOf (entries : List CStr) : Holds (envOf entries) 0 entries :=
  ⟨fun j _ ↦ by simp [envOf], by simp [envOf]⟩

theorem libcInitAtSecure_environ_ldPreload :
    (1 : ℕ) ≠ 0 ∧ Holds (envOf [ldPreloadEntry, pathEntry]) 0 [ldPreloadEntry, pathEntry] ∧
      ∃ env' reads, libcInitAtSecure 1 (envOf [ldPreloadEntry, pathEntry]) 3 = some (env', reads) ∧
        Sanitized [ldPreloadEntry, pathEntry] (envOf [ldPreloadEntry, pathEntry]) env' reads :=
  ⟨Nat.one_ne_zero, holds_envOf _,
    libcInitAtSecure_environ Nat.one_ne_zero _ [ldPreloadEntry, pathEntry] (holds_envOf _)⟩

example : [ldPreloadEntry, pathEntry].filter kept = [pathEntry] := by decide

/-- `=a=b`: an `=` after its first byte, an empty name before its first `=`, which is at 0. -/
def leadingEqualEntry : CStr := ⟨[0x3d, 0x61, 0x3d, 0x62], by decide⟩

/-- `=a=b` has an `=` at position 2, and the text before its first `=` is no unsafe name; yet
`__libc_init_AT_SECURE` drops it. -/
theorem sanitize_drops_leading_equal :
    leadingEqualEntry.bytes[2]? = some equalSign ∧
      leadingEqualEntry.bytes.takeWhile (· ≠ equalSign) ∉ unsafeVariableNames ∧
      leadingEqualEntry.bytes.length < maxEnvLen ∧
      (libcInitAtSecure 1 (envOf [leadingEqualEntry]) 2).map (fun r ↦ r.1 0) = some none := by
  decide

end Bionic.LibcInit.AtSecure
