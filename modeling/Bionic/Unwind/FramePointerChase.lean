import Mathlib.Data.BitVec

/-!
# Following the chain of frame records

`android_unsafe_frame_pointer_chase(buf, num_entries)` walks the frame records from its own frame
address `begin` up the stack to `end`, the thread's `stack_top` or the top of the alternate signal
stack. Each record is two words, `next_frame` and `return_addr`; on RISC-V it lies 16 bytes below
the frame address. While `buf` has room the return address is stored, and a zero one ends the
walk; the next record must lie a whole record higher, below `end`, and be word-aligned.

The model keeps the loop's state, `begin`, `num_frames`, the stores to `buf` and the addresses of
the words it reads, and runs `chaseStep` for at most `fuel` iterations (`chaseLoop`). The chain it
follows is `chainFrames`, the frames counted are `countedFrames`.

Every step moves a whole record up and stays below `end`, so with `begin ≤ end` the loop ends
within `(end - begin) / sizeof(frame_record) + 1` iterations (`chaseLoop_isSome`), returns the
number of frames of the chain before one whose return address is zero while `buf` has room
(`chaseLoop_numFrames`), and stores to `buf[0]` up to `buf[min(num_entries, count) - 1]`, each
once, in order, the return address of that frame (`chaseLoop_buf`); together, for the entry point,
`androidUnsafeFramePointerChase_spec`. The reads follow the run rule `chaseLoop_induction`: a
property every iteration keeps holds at the end. On RISC-V every word it reads
lies in `[begin - 16, end)` (`chaseLoop_reads_riscv`). Elsewhere only the first word of the next
record is checked against `end`: a record whose first word is the last word below `end` has its
return address at `end`, and the loop reads it (`chaseLoop_reads_past_end`).
-/

set_option autoImplicit false
set_option relaxedAutoImplicit false

namespace Bionic.Unwind

variable {w : ℕ}

/-- The target: `sizeof(void*)`, and whether it is RISC-V, where the frame record lies 16 bytes
below the frame address. RISC-V is LP64. -/
structure Target where
  ptrSize : ℕ
  riscv : Bool
  ptrSize_pos : 0 < ptrSize
  ptrSize_of_riscv : riscv = true → ptrSize = 8

/-- `sizeof(frame_record)`: two words. -/
def Target.sizeofFrameRecord (t : Target) : ℕ := 2 * t.ptrSize

/-- The state of the loop: `begin`, `num_frames`, the stores to `buf` as index and value in
order, and the addresses of the words read in order. -/
structure Chase (w : ℕ) where
  begin : BitVec w
  numFrames : ℕ
  buf : List (ℕ × BitVec w)
  reads : List (BitVec w)

section Loop

variable (t : Target) (load : BitVec w → BitVec w) (clearPacBits : BitVec w → BitVec w)
  (numEntries : ℕ) (stackEnd : BitVec w)

/-- `frame`: the record of the frame at `begin`. -/
def frameAddress (begin : BitVec w) : BitVec w := if t.riscv then begin - 16 else begin

/-- The address of `frame->return_addr`. -/
def returnAddress (begin : BitVec w) : BitVec w :=
  frameAddress t begin + BitVec.ofNat w t.ptrSize

/-- The return address the record of the frame at `begin` holds, PAC bits cleared. -/
def returnValue (begin : BitVec w) : BitVec w := clearPacBits (load (returnAddress t begin))

/-- The test that keeps the loop going: the next frame is a whole record higher, below `end`, and
word-aligned. -/
def nextOk (begin next : BitVec w) : Bool :=
  !(next < begin + BitVec.ofNat w t.sizeofFrameRecord || stackEnd ≤ next ||
    next % BitVec.ofNat w t.ptrSize != 0)

/-- One iteration of the loop: whether it goes on, and the state after it. -/
def chaseStep (s : Chase w) : Bool × Chase w :=
  let frame := frameAddress t s.begin
  let stores := decide (s.numFrames < numEntries)
  let addr := returnValue t load clearPacBits s.begin
  if stores ∧ addr = 0 then (false, { s with reads := s.reads ++ [returnAddress t s.begin] })
  else
    let next := load frame
    (nextOk t stackEnd s.begin next,
      { begin := if nextOk t stackEnd s.begin next then next else s.begin
        numFrames := s.numFrames + 1
        buf := if stores then s.buf ++ [(s.numFrames, addr)] else s.buf
        reads := (if stores then s.reads ++ [returnAddress t s.begin] else s.reads) ++ [frame] })

/-- The loop for at most `fuel` iterations; `none` when they do not end it. -/
def chaseLoop : ℕ → Chase w → Option (Chase w)
  | 0, _ => none
  | fuel + 1, s =>
    match chaseStep t load clearPacBits numEntries stackEnd s with
    | (true, s) => chaseLoop fuel s
    | (false, s) => some s

/-- The frames the loop visits from `begin`, at most `fuel` of them: each next one is where the
record points, while `nextOk` holds. -/
def chainFrames : ℕ → BitVec w → List (BitVec w)
  | 0, _ => []
  | fuel + 1, begin =>
    let next := load (frameAddress t begin)
    begin :: if nextOk t stackEnd begin next then chainFrames fuel next else []

/-- The frames of a chain the loop counts while `room` entries of `buf` are left: all of them, up
to one whose return address, read while there is room, is zero. -/
def countedFrames : ℕ → List (BitVec w) → ℕ
  | _, [] => 0
  | room, begin :: frames =>
    if 0 < room ∧ returnValue t load clearPacBits begin = 0 then 0
    else countedFrames (room - 1) frames + 1

end Loop

/-- `end`: the top of the alternate signal stack, `ss_sp + ss_size`, when `sigaltstack` says the
thread runs on it, else the thread's `stack_top`. -/
def chaseEnd (stackTop : BitVec w) (altStack : Option (BitVec w × BitVec w)) : BitVec w :=
  match altStack with
  | some (sp, size) => sp + size
  | none => stackTop

/-- `android_unsafe_frame_pointer_chase(buf, num_entries)` called with frame address `begin`, run
for at most `fuel` iterations: the final state, whose `numFrames` it returns. -/
def androidUnsafeFramePointerChase (t : Target) (load clearPacBits : BitVec w → BitVec w)
    (fuel numEntries : ℕ) (begin stackTop : BitVec w) (altStack : Option (BitVec w × BitVec w)) :
    Option (Chase w) :=
  chaseLoop t load clearPacBits numEntries (chaseEnd stackTop altStack) fuel ⟨begin, 0, [], []⟩

section Run

variable {t : Target} {load clearPacBits : BitVec w → BitVec w} {numEntries : ℕ}
  {stackEnd : BitVec w}

theorem chaseStep_of_zero {s : Chase w} (hroom : s.numFrames < numEntries)
    (hzero : returnValue t load clearPacBits s.begin = 0) :
    chaseStep t load clearPacBits numEntries stackEnd s =
      (false, { s with reads := s.reads ++ [returnAddress t s.begin] }) := by
  simp [chaseStep, hroom, hzero]

/-- Otherwise the frame is counted, its return address stored while `buf` has room, and the loop
goes on to the next frame when `nextOk` holds. -/
theorem chaseStep_of_not_zero {s : Chase w}
    (h : ¬ (s.numFrames < numEntries ∧ returnValue t load clearPacBits s.begin = 0)) :
    chaseStep t load clearPacBits numEntries stackEnd s =
      (nextOk t stackEnd s.begin (load (frameAddress t s.begin)),
        { begin := if nextOk t stackEnd s.begin (load (frameAddress t s.begin))
            then load (frameAddress t s.begin) else s.begin
          numFrames := s.numFrames + 1
          buf := if s.numFrames < numEntries
            then s.buf ++ [(s.numFrames, returnValue t load clearPacBits s.begin)] else s.buf
          reads := (if s.numFrames < numEntries then s.reads ++ [returnAddress t s.begin]
            else s.reads) ++ [frameAddress t s.begin] }) := by
  rw [chaseStep, if_neg (by simpa using h)]
  simp only [decide_eq_true_eq]

theorem chaseLoop_succ (fuel : ℕ) (s : Chase w) :
    chaseLoop t load clearPacBits numEntries stackEnd (fuel + 1) s =
      match chaseStep t load clearPacBits numEntries stackEnd s with
      | (true, s) => chaseLoop t load clearPacBits numEntries stackEnd fuel s
      | (false, s) => some s := rfl

theorem chaseLoop_numFrames {fuel : ℕ} {s r : Chase w}
    (h : chaseLoop t load clearPacBits numEntries stackEnd fuel s = some r) :
    r.numFrames = s.numFrames + countedFrames t load clearPacBits (numEntries - s.numFrames)
      (chainFrames t load stackEnd fuel s.begin) := by
  induction fuel generalizing s with
  | zero => simp [chaseLoop] at h
  | succ fuel ih =>
    rw [chaseLoop_succ] at h
    by_cases hzero : s.numFrames < numEntries ∧ returnValue t load clearPacBits s.begin = 0
    · -- the frame with a zero return address is not counted
      rw [chaseStep_of_zero hzero.1 hzero.2] at h
      obtain rfl := Option.some.inj h
      simp [chainFrames, countedFrames, hzero.2, Nat.sub_pos_of_lt hzero.1]
    · have hcount : ¬ (0 < numEntries - s.numFrames ∧
          returnValue t load clearPacBits s.begin = 0) := fun h' ↦ hzero ⟨by omega, h'.2⟩
      rw [chaseStep_of_not_zero hzero] at h
      cases hnext : nextOk t stackEnd s.begin (load (frameAddress t s.begin)) with
      | true =>
        simp only [hnext, if_true] at h
        rw [ih h]
        simp only [chainFrames, hnext, if_true, countedFrames, hcount, if_false, Nat.sub_sub]
        omega
      | false =>
        simp only [hnext] at h
        obtain rfl := Option.some.inj h
        simp only [chainFrames, hnext, Bool.false_eq_true, if_false, countedFrames, hcount]

/-- The stores of a chain from index `n`: each index, with the return address of its frame. -/
def chainStores (f : BitVec w → BitVec w) (frames : List (BitVec w)) (n k : ℕ) :
    List (ℕ × BitVec w) :=
  (List.range' n k).map fun i ↦ (i, f (frames.getD (i - n) 0))

theorem chainStores_zero (f : BitVec w → BitVec w) (frames : List (BitVec w)) (n : ℕ) :
    chainStores f frames n 0 = [] := rfl

theorem chainStores_cons (f : BitVec w → BitVec w) (b : BitVec w) (frames : List (BitVec w))
    (n k : ℕ) :
    chainStores f (b :: frames) n (k + 1) = (n, f b) :: chainStores f frames (n + 1) k := by
  rw [chainStores, List.range'_succ, List.map_cons, Nat.sub_self]
  congr 1
  refine List.map_congr_left fun i hi ↦ ?_
  obtain ⟨hlo, -⟩ : n + 1 ≤ i ∧ i < n + 1 + k := by simpa using List.mem_range'_1.1 hi
  -- past the first frame the index into the rest is one less
  obtain ⟨j, rfl⟩ : ∃ j, i = n + 1 + j := ⟨i - (n + 1), by omega⟩
  simp [show n + 1 + j - n = j + 1 by omega]

/-- **The stores to `buf`** are those of the counted frames while there is room, in order, each
the return address of its frame. -/
theorem chaseLoop_buf {fuel : ℕ} {s r : Chase w}
    (h : chaseLoop t load clearPacBits numEntries stackEnd fuel s = some r) :
    r.buf = s.buf ++ chainStores (returnValue t load clearPacBits)
      (chainFrames t load stackEnd fuel s.begin) s.numFrames
      (min (numEntries - s.numFrames) (countedFrames t load clearPacBits (numEntries - s.numFrames)
        (chainFrames t load stackEnd fuel s.begin))) := by
  induction fuel generalizing s with
  | zero => simp [chaseLoop] at h
  | succ fuel ih =>
    rw [chaseLoop_succ] at h
    by_cases hzero : s.numFrames < numEntries ∧ returnValue t load clearPacBits s.begin = 0
    · rw [chaseStep_of_zero hzero.1 hzero.2] at h
      obtain rfl := Option.some.inj h
      simp [chainFrames, countedFrames, hzero.2, Nat.sub_pos_of_lt hzero.1, chainStores_zero]
    · have hcount : ¬ (0 < numEntries - s.numFrames ∧
          returnValue t load clearPacBits s.begin = 0) := fun h' ↦ hzero ⟨by omega, h'.2⟩
      rw [chaseStep_of_not_zero hzero] at h
      -- with no room left nothing is stored, before or after
      by_cases hroom : s.numFrames < numEntries
      · have hmin : ∀ c, min (numEntries - s.numFrames) (c + 1) =
            min (numEntries - (s.numFrames + 1)) c + 1 := fun c ↦ by omega
        cases hnext : nextOk t stackEnd s.begin (load (frameAddress t s.begin)) with
        | true =>
          simp only [hnext, if_true] at h
          rw [ih h]
          simp only [chainFrames, hnext, if_true, countedFrames, hcount, if_false, hroom, hmin,
            chainStores_cons, List.append_assoc, List.singleton_append, Nat.sub_sub]
        | false =>
          simp only [hnext] at h
          obtain rfl := Option.some.inj h
          simp only [chainFrames, hnext, Bool.false_eq_true, if_false, countedFrames, hcount,
            hroom, if_true, hmin, chainStores_cons, Nat.zero_add, Nat.min_zero, chainStores_zero]
      · have hnone : numEntries - s.numFrames = 0 := by omega
        cases hnext : nextOk t stackEnd s.begin (load (frameAddress t s.begin)) with
        | true =>
          simp only [hnext, if_true] at h
          rw [ih h]
          simp [hroom, hnone, show numEntries - (s.numFrames + 1) = 0 by omega, chainStores_zero]
        | false =>
          simp only [hnext] at h
          obtain rfl := Option.some.inj h
          simp [hroom, hnone, chainStores_zero]

/-- The test of the next frame, on addresses: a whole record higher, below `end`, and aligned,
when the record above `begin` does not wrap. -/
theorem nextOk_iff {begin next : BitVec w} (hb : begin.toNat + t.sizeofFrameRecord < 2 ^ w) :
    nextOk t stackEnd begin next = true ↔ begin.toNat + t.sizeofFrameRecord ≤ next.toNat ∧
      next.toNat < stackEnd.toNat ∧ next.toNat % t.ptrSize = 0 := by
  have hrec : (BitVec.ofNat w t.sizeofFrameRecord).toNat = t.sizeofFrameRecord :=
    Nat.mod_eq_of_lt (by omega)
  have hptr : (BitVec.ofNat w t.ptrSize).toNat = t.ptrSize :=
    Nat.mod_eq_of_lt (by unfold Target.sizeofFrameRecord at hb; omega)
  have hup : (begin + BitVec.ofNat w t.sizeofFrameRecord).toNat =
      begin.toNat + t.sizeofFrameRecord := by
    rw [BitVec.toNat_add_of_lt (by rw [hrec]; exact hb), hrec]
  have hmod : next % BitVec.ofNat w t.ptrSize = 0 ↔ next.toNat % t.ptrSize = 0 := by
    rw [← BitVec.toNat_inj, BitVec.toNat_umod, hptr]
    simp
  simp only [nextOk, Bool.not_eq_true', Bool.or_eq_false_iff, decide_eq_false_iff_not,
    bne_eq_false_iff_eq, BitVec.lt_def, BitVec.le_def, hup, hmod, not_lt, not_le, and_assoc]

theorem div_add_one_le_of_add_le {b next e d : ℕ} (hd : 0 < d) (hnext : b + d ≤ next)
    (he : next ≤ e) : (e - next) / d + 1 ≤ (e - b) / d := by
  rw [← Nat.add_div_right _ hd]
  exact Nat.div_le_div_right (by omega)

/-- **The chain is short**: with `begin ≤ end`, it has at most `(end - begin) / sizeof(frame_record)
+ 1` frames. -/
theorem length_chainFrames_le {begin : BitVec w} (hb : begin.toNat ≤ stackEnd.toNat)
    (hend : stackEnd.toNat + t.sizeofFrameRecord < 2 ^ w) (fuel : ℕ) :
    (chainFrames t load stackEnd fuel begin).length ≤
      (stackEnd.toNat - begin.toNat) / t.sizeofFrameRecord + 1 := by
  have hd : 0 < t.sizeofFrameRecord := by unfold Target.sizeofFrameRecord; have := t.ptrSize_pos; omega
  induction fuel generalizing begin with
  | zero => simp [chainFrames]
  | succ fuel ih =>
    simp only [chainFrames]
    cases hnext : nextOk t stackEnd begin (load (frameAddress t begin)) with
    | false => simp
    | true =>
      -- the next frame is a record higher and still below the end
      obtain ⟨hup, hbelow, -⟩ := (nextOk_iff (by omega)).1 hnext
      have hrest := ih (Nat.le_of_lt hbelow)
      have hroom := div_add_one_le_of_add_le hd hup (Nat.le_of_lt hbelow)
      simp only [if_true, List.length_cons]
      omega

/-- **The loop ends**: from `begin ≤ end`, `(end - begin) / sizeof(frame_record) + 1` iterations
are enough. -/
theorem chaseLoop_isSome {fuel : ℕ} {s : Chase w} (hb : s.begin.toNat ≤ stackEnd.toNat)
    (hend : stackEnd.toNat + t.sizeofFrameRecord < 2 ^ w)
    (hfuel : (stackEnd.toNat - s.begin.toNat) / t.sizeofFrameRecord + 1 ≤ fuel) :
    (chaseLoop t load clearPacBits numEntries stackEnd fuel s).isSome := by
  have hd : 0 < t.sizeofFrameRecord := by unfold Target.sizeofFrameRecord; have := t.ptrSize_pos; omega
  induction fuel generalizing s with
  | zero => exact absurd hfuel (Nat.not_succ_le_zero _)
  | succ fuel ih =>
    rw [chaseLoop_succ]
    by_cases hzero : s.numFrames < numEntries ∧ returnValue t load clearPacBits s.begin = 0
    · rw [chaseStep_of_zero hzero.1 hzero.2]
      rfl
    · rw [chaseStep_of_not_zero hzero]
      cases hnext : nextOk t stackEnd s.begin (load (frameAddress t s.begin)) with
      | false => rfl
      | true =>
        -- the next frame is a record higher, so one iteration fewer is needed from there
        obtain ⟨hup, hbelow, -⟩ := (nextOk_iff (by omega)).1 hnext
        have hroom := div_add_one_le_of_add_le hd hup (Nat.le_of_lt hbelow)
        exact ih (by simpa using Nat.le_of_lt hbelow) (by simp only [if_true]; omega)

theorem countedFrames_le_length (room : ℕ) (frames : List (BitVec w)) :
    countedFrames t load clearPacBits room frames ≤ frames.length := by
  induction frames generalizing room with
  | nil => simp [countedFrames]
  | cons b frames ih =>
    simp only [countedFrames, List.length_cons]
    split_ifs
    · omega
    · have := ih (room - 1)
      omega

theorem reads_of_chaseStep {s s' : Chase w} {c : Bool}
    (h : chaseStep t load clearPacBits numEntries stackEnd s = (c, s')) :
    ∃ words, s'.reads = s.reads ++ words ∧
      ∀ a ∈ words, a = frameAddress t s.begin ∨ a = returnAddress t s.begin := by
  by_cases hzero : s.numFrames < numEntries ∧ returnValue t load clearPacBits s.begin = 0
  · rw [chaseStep_of_zero hzero.1 hzero.2] at h
    obtain ⟨-, rfl⟩ := Prod.mk.inj h
    exact ⟨[returnAddress t s.begin], rfl, by simp⟩
  · rw [chaseStep_of_not_zero hzero] at h
    obtain ⟨-, rfl⟩ := Prod.mk.inj h
    by_cases hroom : s.numFrames < numEntries
    · exact ⟨[returnAddress t s.begin, frameAddress t s.begin], by simp [hroom], by simp⟩
    · exact ⟨[frameAddress t s.begin], by simp [hroom], by simp⟩

theorem nextOk_of_chaseStep {s s' : Chase w}
    (h : chaseStep t load clearPacBits numEntries stackEnd s = (true, s')) :
    nextOk t stackEnd s.begin s'.begin = true := by
  by_cases hzero : s.numFrames < numEntries ∧ returnValue t load clearPacBits s.begin = 0
  · rw [chaseStep_of_zero hzero.1 hzero.2] at h
    exact absurd (Prod.mk.inj h).1 Bool.false_ne_true
  · rw [chaseStep_of_not_zero hzero] at h
    obtain ⟨hnext, rfl⟩ := Prod.mk.inj h
    simp [hnext]

/-- **The run rule of the loop**: a property of the state that every iteration going on keeps,
and that every last iteration turns into `Q`, gives `Q` at the end of the run. -/
theorem chaseLoop_induction (P Q : Chase w → Prop)
    (hstep : ∀ s s', P s → chaseStep t load clearPacBits numEntries stackEnd s = (true, s') → P s')
    (hstop : ∀ s s', P s → chaseStep t load clearPacBits numEntries stackEnd s = (false, s') →
      Q s')
    {fuel : ℕ} {s r : Chase w} (hs : P s)
    (h : chaseLoop t load clearPacBits numEntries stackEnd fuel s = some r) : Q r := by
  induction fuel generalizing s with
  | zero => simp [chaseLoop] at h
  | succ fuel ih =>
    rw [chaseLoop_succ] at h
    rcases hstep' : chaseStep t load clearPacBits numEntries stackEnd s with ⟨c, s'⟩
    cases c with
    | true => exact ih (hstep s s' hs hstep') (by simpa [hstep'] using h)
    | false =>
      have hr : s' = r := by simpa [hstep'] using h
      exact hr ▸ hstop s s' hs hstep'

section Riscv

variable (hriscv : t.riscv = true)
include hriscv

theorem toNat_frameAddress_of_riscv {b : BitVec w} (h16 : 16 ≤ b.toNat) :
    (frameAddress t b).toNat = b.toNat - 16 := by
  have hw : 16 < 2 ^ w := by have := b.isLt; omega
  have h16' : (16 : BitVec w).toNat = 16 := Nat.mod_eq_of_lt hw
  rw [frameAddress, if_pos hriscv, BitVec.toNat_sub_of_le (BitVec.le_def.2 (by omega)), h16']

theorem toNat_returnAddress_of_riscv {b : BitVec w} (h16 : 16 ≤ b.toNat) :
    (returnAddress t b).toNat = b.toNat - 8 := by
  have h8 : (BitVec.ofNat w t.ptrSize).toNat = 8 := by
    rw [t.ptrSize_of_riscv hriscv]
    exact Nat.mod_eq_of_lt (by have := b.isLt; omega)
  have hframe := toNat_frameAddress_of_riscv hriscv h16
  rw [returnAddress, BitVec.toNat_add_of_lt (by have := b.isLt; omega), hframe, h8]
  omega

/-- The words a step reads from a frame at or above `begin` and at most `end` lie in
`[begin - 16, end)`, as do all those read before it. -/
theorem reads_of_chaseStep_riscv {begin : BitVec w} (h16 : 16 ≤ begin.toNat) {s s' : Chase w}
    {c : Bool} (hlo : begin.toNat ≤ s.begin.toNat) (hhi : s.begin.toNat ≤ stackEnd.toNat)
    (hreads : ∀ a ∈ s.reads, begin.toNat - 16 ≤ a.toNat ∧ a.toNat + 8 ≤ stackEnd.toNat)
    (h : chaseStep t load clearPacBits numEntries stackEnd s = (c, s')) :
    ∀ a ∈ s'.reads, begin.toNat - 16 ≤ a.toNat ∧ a.toNat + 8 ≤ stackEnd.toNat := by
  obtain ⟨words, hs', hwords⟩ := reads_of_chaseStep h
  intro a ha
  rw [hs', List.mem_append] at ha
  rcases ha with ha | ha
  · exact hreads a ha
  -- the record is the 16 bytes below the frame
  · rcases hwords a ha with rfl | rfl
    · rw [toNat_frameAddress_of_riscv hriscv (by omega)]
      omega
    · rw [toNat_returnAddress_of_riscv hriscv (by omega)]
      omega

/-- **On RISC-V every word read lies in `[begin - 16, end)`**, from a frame address at most `end`
whose records do not wrap. -/
theorem chaseLoop_reads_riscv {begin : BitVec w} (h16 : 16 ≤ begin.toNat)
    (hb : begin.toNat ≤ stackEnd.toNat) (hend : stackEnd.toNat + t.sizeofFrameRecord < 2 ^ w)
    {fuel : ℕ} {r : Chase w}
    (h : chaseLoop t load clearPacBits numEntries stackEnd fuel ⟨begin, 0, [], []⟩ = some r) :
    ∀ a ∈ r.reads, begin.toNat - 16 ≤ a.toNat ∧ a.toNat + 8 ≤ stackEnd.toNat := by
  -- the frame stays between `begin` and `end`, and every word read so far is in range
  refine chaseLoop_induction
    (fun s ↦ begin.toNat ≤ s.begin.toNat ∧ s.begin.toNat ≤ stackEnd.toNat ∧
      ∀ a ∈ s.reads, begin.toNat - 16 ≤ a.toNat ∧ a.toNat + 8 ≤ stackEnd.toNat)
    (fun r ↦ ∀ a ∈ r.reads, begin.toNat - 16 ≤ a.toNat ∧ a.toNat + 8 ≤ stackEnd.toNat)
    (fun s s' hs hstep ↦ ?_) (fun s s' hs hstop ↦ ?_) ⟨le_refl _, hb, by simp⟩ h
  · obtain ⟨hlo, hhi, hreads⟩ := hs
    obtain ⟨hup, hbelow, -⟩ := (nextOk_iff (by omega)).1 (nextOk_of_chaseStep hstep)
    exact ⟨by omega, by omega, reads_of_chaseStep_riscv hriscv h16 hlo hhi hreads hstep⟩
  · exact reads_of_chaseStep_riscv hriscv h16 hs.1 hs.2.1 hs.2.2 hstop

end Riscv

end Run

/-- RISC-V, LP64. -/
def riscv64 : Target := ⟨8, true, by decide, fun _ ↦ rfl⟩

/-- Two RISC-V frames at `0x7000` and `0x7800`, the second the last: their records are the 16
bytes below each. -/
def twoFramesRiscv (a : BitVec 64) : BitVec 64 :=
  if a = 0x6ff0 then 0x7800 else if a = 0x6ff8 then 0x1234 else if a = 0x77f8 then 0x5678 else 0

theorem chaseLoop_reads_riscv_twoFrames :
    ∃ r, chaseLoop riscv64 twoFramesRiscv id 4 0x8000 3 ⟨0x7000, 0, [], []⟩ = some r ∧
      ∀ a ∈ r.reads, (0x7000 : BitVec 64).toNat - 16 ≤ a.toNat ∧
        a.toNat + 8 ≤ (0x8000 : BitVec 64).toNat := by
  obtain ⟨r, hr⟩ : ∃ r, chaseLoop riscv64 twoFramesRiscv id 4 0x8000 3 ⟨0x7000, 0, [], []⟩ =
      some r := ⟨_, rfl⟩
  exact ⟨r, hr, chaseLoop_reads_riscv (t := riscv64) rfl (by decide) (by decide) (by decide) hr⟩

theorem ne_of_toNat_ne {a b : BitVec w} (h : a.toNat ≠ b.toNat) : a ≠ b :=
  fun hab ↦ h (congrArg BitVec.toNat hab)

/-- **Elsewhere the loop reads past `end`.** On a target other than RISC-V, let the record at
`begin` lie inside `[begin, end)` with room for another record and a word above it, let `end` be
word-aligned, the records not wrap, and `buf` have room for two entries. If the first record
points to the last word below `end` and the return addresses there are not zero, the loop reads
the word at `end`, the return address of the second record. -/
theorem chaseLoop_reads_past_end (t : Target) (hriscv : t.riscv = false)
    (clearPacBits : BitVec w → BitVec w) {ra : BitVec w} (hra : clearPacBits ra ≠ 0)
    {begin stackEnd : BitVec w}
    (hroom : begin.toNat + t.sizeofFrameRecord + t.ptrSize ≤ stackEnd.toNat)
    (halign : stackEnd.toNat % t.ptrSize = 0)
    (hend : stackEnd.toNat + t.sizeofFrameRecord < 2 ^ w) {numEntries : ℕ}
    (hentries : 2 ≤ numEntries) {fuel : ℕ} (hfuel : 2 ≤ fuel) :
    ∃ load r, chaseLoop t load clearPacBits numEntries stackEnd fuel ⟨begin, 0, [], []⟩ = some r ∧
      stackEnd ∈ r.reads := by
  have hpos := t.ptrSize_pos
  have hrec : t.sizeofFrameRecord = 2 * t.ptrSize := rfl
  have hp : (BitVec.ofNat w t.ptrSize).toNat = t.ptrSize := Nat.mod_eq_of_lt (by omega)
  -- the second record: the last word below `end`, with its return address at `end`
  set last := stackEnd - BitVec.ofNat w t.ptrSize with hlast
  have hlastNat : last.toNat = stackEnd.toNat - t.ptrSize := by
    rw [hlast, BitVec.toNat_sub_of_le (BitVec.le_def.2 (by omega)), hp]
  have hframe : ∀ b : BitVec w, frameAddress t b = b := by simp [frameAddress, hriscv]
  have hret₁ : (returnAddress t begin).toNat = begin.toNat + t.ptrSize := by
    rw [returnAddress, hframe, BitVec.toNat_add_of_lt (by omega), hp]
  have hret₂ : returnAddress t last = stackEnd := by
    rw [returnAddress, hframe, hlast, BitVec.sub_add_cancel]
  let load : BitVec w → BitVec w := fun a ↦
    if a = begin then last else if a = stackEnd ∨ a = returnAddress t begin then ra else 0
  have hne₁ : returnAddress t begin ≠ begin := ne_of_toNat_ne (by omega)
  have hne₂ : stackEnd ≠ begin := ne_of_toNat_ne (by omega)
  have hne₃ : last ≠ begin := ne_of_toNat_ne (by omega)
  have hne₄ : last ≠ stackEnd := ne_of_toNat_ne (by omega)
  have hne₅ : last ≠ returnAddress t begin := ne_of_toNat_ne (by omega)
  -- the first iteration stores a return address and moves to the second record
  have hv₁ : returnValue t load clearPacBits begin = clearPacBits ra := by
    simp [returnValue, load, hne₁]
  have hnext₁ : nextOk t stackEnd begin (load (frameAddress t begin)) = true := by
    rw [hframe, show load begin = last by simp [load], nextOk_iff (by omega), hlastNat]
    refine ⟨by omega, by omega, ?_⟩
    rw [Nat.sub_mod_eq_zero_of_mod_eq (by rw [halign, Nat.mod_self])]
  have hstep₁ := @chaseStep_of_not_zero w t load clearPacBits numEntries stackEnd
    ⟨begin, 0, [], []⟩ (by rw [hv₁]; exact fun h ↦ hra h.2)
  rw [hnext₁, hframe, show load begin = last by simp [load]] at hstep₁
  -- the second reads the return address at `end`, and its record points to `0`, which ends it
  have hv₂ : returnValue t load clearPacBits last = clearPacBits ra := by
    simp [returnValue, load, hret₂, hne₂]
  have hnext₂ : nextOk t stackEnd last (load (frameAddress t last)) = false := by
    rw [hframe, show load last = 0 by simp [load, hne₃, hne₄, hne₅]]
    cases hok : nextOk t stackEnd last 0 with
    | false => rfl
    | true =>
      have := ((nextOk_iff (by omega)).1 hok).1
      simp at this
      omega
  have hstep₂ := @chaseStep_of_not_zero w t load clearPacBits numEntries stackEnd
    ⟨last, 1, [(0, returnValue t load clearPacBits begin)], [returnAddress t begin, begin]⟩
    (by rw [hv₂]; exact fun h ↦ hra h.2)
  rw [hnext₂] at hstep₂
  obtain ⟨fuel, rfl⟩ : ∃ k, fuel = k + 2 := ⟨fuel - 2, by omega⟩
  refine ⟨load, (chaseStep t load clearPacBits numEntries stackEnd
    ⟨last, 1, [(0, returnValue t load clearPacBits begin)], [returnAddress t begin, begin]⟩).2,
    ?_, ?_⟩
  · rw [chaseLoop_succ, hstep₁]
    simp only [show 0 < numEntries by omega, if_true, Nat.zero_add, List.nil_append,
      List.singleton_append]
    rw [chaseLoop_succ, hstep₂]
  · rw [hstep₂]
    simp [show 1 < numEntries by omega, hret₂]

/-- An LP64 target other than RISC-V, such as x86-64, where `__bionic_clear_pac_bits` is the
identity. -/
def x86_64 : Target := ⟨8, false, by decide, by simp⟩

/-- A first record at `0x7000` pointing to `0x7ff8`, the last word below `end = 0x8000`. -/
theorem chaseLoop_reads_past_end_x86_64 :
    ∃ load r, chaseLoop x86_64 load id 2 0x8000 2 ⟨0x7000, 0, [], []⟩ = some r ∧
      (0x8000 : BitVec 64) ∈ r.reads :=
  chaseLoop_reads_past_end x86_64 rfl id (show id (1 : BitVec 64) ≠ 0 by decide) (by decide) (by decide) (by decide)
    (le_refl _) (le_refl _)

/-- **What the loop does from the frame address**, from below `end` with enough iterations: it
ends, returns at most `(end - begin) / sizeof(frame_record) + 1`, namely the number of frames of
the chain it counts, and stores, at indices `0` up to `min(num_entries, count) - 1` in order, the
return address of each of those frames. -/
theorem androidUnsafeFramePointerChase_spec (t : Target) (load clearPacBits : BitVec w → BitVec w)
    (fuel numEntries : ℕ) {begin stackTop : BitVec w} {altStack : Option (BitVec w × BitVec w)}
    (hb : begin.toNat ≤ (chaseEnd stackTop altStack).toNat)
    (hend : (chaseEnd stackTop altStack).toNat + t.sizeofFrameRecord < 2 ^ w)
    (hfuel : ((chaseEnd stackTop altStack).toNat - begin.toNat) / t.sizeofFrameRecord + 1 ≤ fuel) :
    ∃ r, androidUnsafeFramePointerChase t load clearPacBits fuel numEntries begin stackTop
        altStack = some r ∧
      r.numFrames ≤ ((chaseEnd stackTop altStack).toNat - begin.toNat) / t.sizeofFrameRecord + 1 ∧
      r.numFrames = countedFrames t load clearPacBits numEntries
        (chainFrames t load (chaseEnd stackTop altStack) fuel begin) ∧
      r.buf = chainStores (returnValue t load clearPacBits)
        (chainFrames t load (chaseEnd stackTop altStack) fuel begin) 0 (min numEntries r.numFrames) := by
  obtain ⟨r, hr⟩ := Option.isSome_iff_exists.1
    (@chaseLoop_isSome w t load clearPacBits numEntries _ fuel ⟨begin, 0, [], []⟩ hb hend hfuel)
  have hcount := chaseLoop_numFrames hr
  have hbuf := chaseLoop_buf hr
  simp only [Nat.zero_add, Nat.sub_zero, List.nil_append] at hcount hbuf
  refine ⟨r, hr, ?_, hcount, by rw [hbuf, hcount]⟩
  -- the count is at most the length of the chain, which is short
  calc r.numFrames ≤ (chainFrames t load (chaseEnd stackTop altStack) fuel begin).length :=
        hcount ▸ countedFrames_le_length _ _
    _ ≤ _ := length_chainFrames_le hb hend fuel

/-- Two frames at `0x7000` and `0x7800`, the second the last. -/
def twoFrames (a : BitVec 64) : BitVec 64 :=
  if a = 0x7000 then 0x7800 else if a = 0x7008 then 0x1234 else if a = 0x7808 then 0x5678 else 0

/-- The two frames below `end = 0x8000`, with room for four entries and the 257 iterations that
`end - begin` allows. -/
theorem androidUnsafeFramePointerChase_spec_twoFrames :
    ∃ r, androidUnsafeFramePointerChase x86_64 twoFrames id 257 4 0x7000 0x8000 none = some r ∧
      r.numFrames ≤ ((chaseEnd (0x8000 : BitVec 64) none).toNat - (0x7000 : BitVec 64).toNat) /
        x86_64.sizeofFrameRecord + 1 ∧
      r.numFrames = countedFrames x86_64 twoFrames id 4
        (chainFrames x86_64 twoFrames (chaseEnd 0x8000 none) 257 0x7000) ∧
      r.buf = chainStores (returnValue x86_64 twoFrames id)
        (chainFrames x86_64 twoFrames (chaseEnd 0x8000 none) 257 0x7000) 0 (min 4 r.numFrames) :=
  androidUnsafeFramePointerChase_spec x86_64 twoFrames id 257 4 (by decide) (by decide)
    (by decide)

end Bionic.Unwind
