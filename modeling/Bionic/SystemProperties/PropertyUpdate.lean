import Bionic.SystemProperties.PropArea
import Bionic.Lib.Interleaving
import Mathlib.Tactic.Ring
import Mathlib.Data.List.GetD

/-!
# Reading a property while it is updated

`SystemProperties::Update` and `SystemProperties::ReadMutablePropertyValue` share a property's
`serial` and `value` and its area's dirty backup area without a lock. The writer saves the old
value in the backup area, marks the serial dirty, writes the new value and stores a new serial
with the new length and a counter one update further on. The reader copies the value, from the
backup area while the serial it loaded is dirty, and starts again unless the serial is the same
after the copy.

The model runs one writer, making a list of `Update` calls on properties of one area, and one
reader of the property `pi`, interleaved at single loads, stores and byte copies
(`Bionic.Lib.Interleaving`). Ghost fields record the value each property holds (`committed`,
which changes when an update stores its new serial), the values `pi` held while the read went on
(`history`) and how many updates of `pi` were completed in that time (`published`).

`UpdateSystem.Inv` holds in every state a run reaches (`UpdateSystem.inv_run`). From it: the
value the reader returns is one that `pi` held during the read, with its terminator at the length
in the returned serial, provided fewer than `2 ^ 23` updates of `pi` were completed during the
read (`readMutablePropertyValue_held`). The serial it returns can be dirty, when the whole read
falls between the two serial stores of one update (`readMutablePropertyValue_dirty_serial`).
Each `Update` adds two to the low 24 bits (`toNat_foldl_updatedSerial`), so below `2 ^ 15`
updates a short property stays short (`update_keeps_short`).
-/

set_option autoImplicit false
set_option relaxedAutoImplicit false

namespace Bionic.SystemProperties

open Bionic.Lib.CString Bionic.Lib.Interleaving

/-! ### Serials -/

/-- `SERIAL_VALUE_LEN(serial)`. -/
def serialValueLen (serial : UInt32) : ℕ := (serial >>> 24).toNat

/-- `SERIAL_DIRTY(serial)`. -/
def serialDirty (serial : UInt32) : Bool := serial &&& 1 != 0

/-- The serial `Update` stores once the new value is written:
`(len << 24) | ((serial + 1) & 0xffffff)`. -/
def publishedSerial (len : ℕ) (serial : UInt32) : UInt32 :=
  (UInt32.ofNat len <<< 24) ||| ((serial + 1) &&& 0xffffff)

/-- The count of updates in a serial, modulo `2 ^ 23`: bits 1 to 23. -/
def serialEpoch (serial : UInt32) : ℕ := serial.toNat % 2 ^ 24 / 2

theorem serialValueLen_eq (serial : UInt32) : serialValueLen serial = serial.toNat / 2 ^ 24 := by
  rw [serialValueLen, UInt32.toNat_shiftRight]
  simp [Nat.shiftRight_eq_div_pow]

theorem serialDirty_eq (serial : UInt32) : serialDirty serial = decide (serial.toNat % 2 = 1) := by
  have hbit : (serial &&& 1).toNat = serial.toNat % 2 := by
    rw [UInt32.toNat_and]
    exact Nat.and_two_pow_sub_one_eq_mod _ 1
  rw [serialDirty, Bool.eq_iff_iff, bne_iff_ne, decide_eq_true_iff, ne_eq, ← UInt32.toNat_inj, hbit,
    UInt32.toNat_zero]
  omega

theorem serialEpoch_lt (serial : UInt32) : serialEpoch serial < 2 ^ 23 := by
  unfold serialEpoch
  omega

theorem toNat_or_one {serial : UInt32} (h : serialDirty serial = false) :
    (serial ||| 1).toNat = serial.toNat + 1 := by
  rw [serialDirty_eq, decide_eq_false_iff_not] at h
  have hor := Nat.two_pow_add_eq_or_of_lt (i := 1) (b := 1) (by norm_num) (serial.toNat / 2)
  have hhalf : 2 ^ 1 * (serial.toNat / 2) = serial.toNat := by omega
  rw [hhalf] at hor
  rw [UInt32.toNat_or, UInt32.toNat_one, ← hor]

theorem toNat_publishedSerial (len : ℕ) (serial : UInt32) (hlen : len < 2 ^ 8) :
    (publishedSerial len serial).toNat = len * 2 ^ 24 + (serial.toNat + 1) % 2 ^ 24 := by
  have hhigh : (UInt32.ofNat len <<< 24).toNat = 2 ^ 24 * len := by
    rw [UInt32.toNat_shiftLeft, UInt32.toNat_ofNat', show (24 : UInt32).toNat % 32 = 24 from rfl,
      Nat.shiftLeft_eq]
    omega
  have hlow : ((serial + 1) &&& 0xffffff).toNat = (serial.toNat + 1) % 2 ^ 24 := by
    rw [UInt32.toNat_and, UInt32.toNat_add, show (0xffffff : UInt32).toNat = 2 ^ 24 - 1 from rfl,
      Nat.and_two_pow_sub_one_eq_mod]
    simp only [UInt32.toNat_one]
    omega
  rw [publishedSerial, UInt32.toNat_or, hhigh, hlow,
    ← Nat.two_pow_add_eq_or_of_lt (Nat.mod_lt _ (by norm_num))]
  ring

section Marking

variable {serial : UInt32} (h : serialDirty serial = false)
include h

theorem serialValueLen_or_one : serialValueLen (serial ||| 1) = serialValueLen serial := by
  have hbit := (serialDirty_eq serial).symm.trans h
  rw [decide_eq_false_iff_not] at hbit
  rw [serialValueLen_eq, serialValueLen_eq, toNat_or_one h]
  omega

theorem serialDirty_or_one : serialDirty (serial ||| 1) = true := by
  have hbit := (serialDirty_eq serial).symm.trans h
  rw [decide_eq_false_iff_not] at hbit
  rw [serialDirty_eq, toNat_or_one h, decide_eq_true_iff]
  omega

theorem serialEpoch_or_one : serialEpoch (serial ||| 1) = serialEpoch serial := by
  have hbit := (serialDirty_eq serial).symm.trans h
  rw [decide_eq_false_iff_not] at hbit
  unfold serialEpoch
  rw [toNat_or_one h]
  omega

end Marking

theorem serialValueLen_publishedSerial {len : ℕ} (serial : UInt32) (hlen : len < 2 ^ 8) :
    serialValueLen (publishedSerial len serial) = len := by
  rw [serialValueLen_eq, toNat_publishedSerial len serial hlen]
  omega

section Publishing

variable {serial : UInt32} (h : serialDirty serial = true) {len : ℕ} (hlen : len < 2 ^ 8)
include h hlen

theorem serialDirty_publishedSerial : serialDirty (publishedSerial len serial) = false := by
  have hbit := (serialDirty_eq serial).symm.trans h
  rw [decide_eq_true_iff] at hbit
  rw [serialDirty_eq, toNat_publishedSerial len serial hlen, decide_eq_false_iff_not]
  omega

theorem serialEpoch_publishedSerial :
    serialEpoch (publishedSerial len serial) = (serialEpoch serial + 1) % 2 ^ 23 := by
  have hbit := (serialDirty_eq serial).symm.trans h
  rw [decide_eq_true_iff] at hbit
  unfold serialEpoch
  rw [toNat_publishedSerial len serial hlen]
  omega

end Publishing

/-! ### The writer, the reader and their interleavings -/

/-- What `Update` and the reader share: each property's `serial` and `value`, and the area's dirty
backup area. -/
structure Shared (ι : Type) where
  serial : ι → UInt32
  value : ι → ℕ → UInt8
  backup : ℕ → UInt8

/-- `pi->value[i] = c`. -/
def Shared.setValue {ι : Type} [DecidableEq ι] (shared : Shared ι) (pi : ι) (i : ℕ) (c : UInt8) :
    Shared ι :=
  { shared with value := Function.update shared.value pi (Function.update (shared.value pi) i c) }

/-- Where `Update(pi, value, len)` is, with its local `serial`. -/
inductive UpdatePc (ι : Type) where
  /-- Between two updates. -/
  | idle
  /-- `memcpy(pa->dirty_backup_area(), pi->value, old_len + 1)`, at byte `i`. -/
  | backingUp (pi : ι) (value : List UInt8) (len : ℕ) (serial : UInt32) (i : ℕ)
  /-- `serial |= 1` and its store. -/
  | markingDirty (pi : ι) (value : List UInt8) (len : ℕ) (serial : UInt32)
  /-- `strlcpy(pi->value, value, len + 1)`, at byte `i`. -/
  | copying (pi : ι) (value : List UInt8) (len : ℕ) (serial : UInt32) (i : ℕ)
  /-- The store of the new serial. -/
  | publishing (pi : ι) (value : List UInt8) (len : ℕ) (serial : UInt32)

/-- Where `ReadMutablePropertyValue(pi, value)` is, with its local `serial` and the caller's
buffer `value`. -/
inductive ReadPc where
  /-- Before the first load of the serial. -/
  | start (buf : ℕ → UInt8)
  /-- `memcpy(value, ..., len + 1)` from the backup area or from `pi->value`, at byte `i`. -/
  | copying (serial : UInt32) (i : ℕ) (buf : ℕ → UInt8)
  /-- The load of `new_serial` and its comparison with `serial`. -/
  | checking (serial : UInt32) (buf : ℕ → UInt8)
  /-- Returned `serial`. -/
  | done (serial : UInt32) (buf : ℕ → UInt8)

/-- The serial the reader returned, once it has. -/
def ReadPc.result : ReadPc → Option UInt32
  | .done serial _ => some serial
  | _ => none

/-- The writer with the `Update` calls it has still to make, the reader, the memory they share,
and ghost fields: the value each property holds, the values the reader's property held during the
read, the updates of it completed during the read, and those since the reader's last load. -/
structure UpdateSystem (ι : Type) where
  shared : Shared ι
  updates : List (ι × List UInt8 × ℕ)
  writer : UpdatePc ι
  reader : ReadPc
  committed : ι → List UInt8
  history : List (List UInt8)
  published : ℕ
  sinceLoad : ℕ

/-- The two threads. -/
inductive Agent where
  | writer
  | reader
  deriving DecidableEq, Repr

section Steps

variable {ι : Type} [DecidableEq ι] (pi : ι)

/-- One step of the writer. The ghost fields change when an update stores its new serial: the
property holds its new value, and an update of `pi` while the read goes on is counted. -/
def updateStep (sys : UpdateSystem ι) : Option (UpdateSystem ι) :=
  match sys.writer with
  | .idle =>
    match sys.updates with
    | [] => none
    | (p, value, len) :: rest =>
      -- `len >= PROP_VALUE_MAX` returns `-1` before anything is written
      if len ≥ propValueMax then some { sys with updates := rest }
      else some { sys with updates := rest, writer := .backingUp p value len (sys.shared.serial p) 0 }
  | .backingUp p value len serial i =>
    let shared := { sys.shared with
      backup := Function.update sys.shared.backup i (sys.shared.value p i) }
    if i < serialValueLen serial then
      some { sys with shared, writer := .backingUp p value len serial (i + 1) }
    else some { sys with shared, writer := .markingDirty p value len serial }
  | .markingDirty p value len serial =>
    let serial := serial ||| 1
    some { sys with
      shared := { sys.shared with serial := Function.update sys.shared.serial p serial }
      writer := .copying p value len serial 0 }
  | .copying p value len serial i =>
    -- `strlcpy` copies up to `len` bytes that are not the terminator, then a terminator
    let c := value.getD i 0
    if i < len ∧ c ≠ 0 then
      some { sys with
        shared := sys.shared.setValue p i c
        writer := .copying p value len serial (i + 1) }
    else
      some { sys with shared := sys.shared.setValue p i 0, writer := .publishing p value len serial }
  | .publishing p value len serial =>
    let counted := sys.reader.result.isNone && decide (p = pi)
    some { sys with
      shared := { sys.shared with
        serial := Function.update sys.shared.serial p (publishedSerial len serial) }
      writer := .idle
      committed := Function.update sys.committed p (value.take len)
      history := if counted then sys.history ++ [value.take len] else sys.history
      published := if counted then sys.published + 1 else sys.published
      sinceLoad := if counted then sys.sinceLoad + 1 else sys.sinceLoad }

/-- One step of the reader of `pi`. -/
def readStep (sys : UpdateSystem ι) : Option (UpdateSystem ι) :=
  match sys.reader with
  | .start buf => some { sys with reader := .copying (sys.shared.serial pi) 0 buf, sinceLoad := 0 }
  | .copying serial i buf =>
    let src := if serialDirty serial then sys.shared.backup else sys.shared.value pi
    let buf := Function.update buf i (src i)
    if i < serialValueLen serial then some { sys with reader := .copying serial (i + 1) buf }
    else some { sys with reader := .checking serial buf }
  | .checking serial buf =>
    let newSerial := sys.shared.serial pi
    if serial = newSerial then some { sys with reader := .done serial buf }
    else some { sys with reader := .copying newSerial 0 buf, sinceLoad := 0 }
  | .done _ _ => none

/-- A step of either thread. -/
def step : Agent → UpdateSystem ι → Option (UpdateSystem ι)
  | .writer => updateStep pi
  | .reader => readStep pi

end Steps

/-! ### The writer's invariant -/

section Invariant

variable {ι : Type} [DecidableEq ι]

/-- What `Update` needs of its arguments for the value it writes to end at `len`: a C string of at
least `len` bytes, with `len` below `PROP_VALUE_MAX` (a longer one is refused). -/
def UpdateArgsOk (value : List UInt8) (len : ℕ) : Prop :=
  len < propValueMax ∧ len ≤ value.length ∧ 0 ∉ value

/-- A property outside an update: its serial is clean and its `value` holds what it holds. -/
def Clean (shared : Shared ι) (committed : ι → List UInt8) (p : ι) : Prop :=
  serialDirty (shared.serial p) = false ∧ HoldsString (shared.value p) (committed p)

/-- What each phase of `Update` has done so far: the backup area holds the old value from the
moment the serial is dirty, and the new value is written while it is. -/
def WriterInv (shared : Shared ι) (committed : ι → List UInt8) : UpdatePc ι → Prop
  | .idle => ∀ p, Clean shared committed p
  | .backingUp q value len serial i =>
    UpdateArgsOk value len ∧ shared.serial q = serial ∧ (∀ p, Clean shared committed p) ∧
      i ≤ (committed q).length ∧ ∀ j < i, shared.backup j = (committed q).getD j 0
  | .markingDirty q value len serial =>
    UpdateArgsOk value len ∧ shared.serial q = serial ∧ (∀ p, Clean shared committed p) ∧
      HoldsString shared.backup (committed q)
  | .copying q value len serial i =>
    UpdateArgsOk value len ∧ shared.serial q = serial ∧ serialDirty serial = true ∧
      (∀ p ≠ q, Clean shared committed p) ∧ HoldsString shared.backup (committed q) ∧
      i ≤ len ∧ ∀ j < i, shared.value q j = (value.take len).getD j 0
  | .publishing q value len serial =>
    UpdateArgsOk value len ∧ shared.serial q = serial ∧ serialDirty serial = true ∧
      (∀ p ≠ q, Clean shared committed p) ∧ HoldsString shared.backup (committed q) ∧
      HoldsString (shared.value q) (value.take len)

/-- The writer's part of the invariant: lengths fit the serial, each phase has done its part, and
the calls still to make have C strings of at least `len` bytes. -/
structure UpdateSystem.WriterOk (sys : UpdateSystem ι) : Prop where
  length_lt : ∀ p, (sys.committed p).length < propValueMax
  serialValueLen_eq : ∀ p, serialValueLen (sys.shared.serial p) = (sys.committed p).length
  phase : WriterInv sys.shared sys.committed sys.writer
  updates : ∀ u ∈ sys.updates, u.2.2 < propValueMax → u.2.2 ≤ u.2.1.length ∧ 0 ∉ u.2.1

variable {shared : Shared ι} {committed : ι → List UInt8} {w : UpdatePc ι} {p : ι}

theorem WriterInv.backup_of_dirty (h : WriterInv shared committed w)
    (hp : serialDirty (shared.serial p) = true) : HoldsString shared.backup (committed p) := by
  cases w with
  | idle => simp [(h p).1] at hp
  | backingUp q value len serial i => simp [(h.2.2.1 p).1] at hp
  | markingDirty q value len serial => simp [(h.2.2.1 p).1] at hp
  | copying q value len serial i =>
    by_cases hpq : p = q
    · exact hpq ▸ h.2.2.2.2.1
    · simp [(h.2.2.2.1 p hpq).1] at hp
  | publishing q value len serial =>
    by_cases hpq : p = q
    · exact hpq ▸ h.2.2.2.2.1
    · simp [(h.2.2.2.1 p hpq).1] at hp

theorem WriterInv.value_of_clean (h : WriterInv shared committed w)
    (hp : serialDirty (shared.serial p) = false) : HoldsString (shared.value p) (committed p) := by
  cases w with
  | idle => exact (h p).2
  | backingUp q value len serial i => exact (h.2.2.1 p).2
  | markingDirty q value len serial => exact (h.2.2.1 p).2
  | copying q value len serial i =>
    by_cases hpq : p = q
    · subst hpq
      rw [h.2.1, h.2.2.1] at hp
      cases hp
    · exact (h.2.2.2.1 p hpq).2
  | publishing q value len serial =>
    by_cases hpq : p = q
    · subst hpq
      rw [h.2.1, h.2.2.1] at hp
      cases hp
    · exact (h.2.2.2.1 p hpq).2

/-! ### Each step of the writer keeps its invariant -/

variable {sys sys' : UpdateSystem ι} (pi : ι)

theorem Shared.setValue_serial (shared : Shared ι) (q : ι) (i : ℕ) (c : UInt8) :
    (shared.setValue q i c).serial = shared.serial := rfl

theorem Shared.setValue_value_of_ne (shared : Shared ι) {p q : ι} (hpq : p ≠ q) (i : ℕ)
    (c : UInt8) : (shared.setValue q i c).value p = shared.value p :=
  Function.update_of_ne hpq _ _

theorem Shared.setValue_value_self (shared : Shared ι) (q : ι) (i : ℕ) (c : UInt8) (j : ℕ) :
    (shared.setValue q i c).value q j = if j = i then c else shared.value q j := by
  simp [Shared.setValue, Function.update_apply]

theorem Clean.setValue {q : ι} (hpq : p ≠ q) (i : ℕ) (c : UInt8)
    (hp : Clean shared committed p) : Clean (shared.setValue q i c) committed p := by
  rw [Clean, Shared.setValue_serial, Shared.setValue_value_of_ne shared hpq]
  exact hp

theorem take_getD_of_lt {value : List UInt8} {len i : ℕ} (hi : i < len) :
    (value.take len).getD i 0 = value.getD i 0 := by
  simp [List.getD_eq_getElem?_getD, hi]

theorem strlcpy_stops {value : List UInt8} {len i : ℕ} (hargs : UpdateArgsOk value len)
    (hi : i ≤ len) (hstop : ¬ (i < len ∧ value.getD i 0 ≠ 0)) : i = len := by
  by_contra hne
  have hlt : i < len := lt_of_le_of_ne hi hne
  apply hstop ⟨hlt, ?_⟩
  have hlt' : i < value.length := by
    have := hargs.2.1
    omega
  have hget : value.getD i 0 = value.get ⟨i, hlt'⟩ := by
    simp [List.getD_eq_getElem?_getD, hlt']
  rw [hget]
  intro h0
  exact hargs.2.2 (h0 ▸ List.get_mem _ _)

namespace UpdateSystem.WriterOk

variable {q : ι} {value : List UInt8} {len : ℕ} {serial : UInt32} {i : ℕ}

theorem updateStep_idle (h : sys.WriterOk) (hw : sys.writer = .idle)
    (hs : updateStep pi sys = some sys') : sys'.WriterOk := by
  have hclean : ∀ p, Clean sys.shared sys.committed p := by
    simpa [WriterInv, hw] using h.phase
  unfold updateStep at hs
  rw [hw] at hs
  dsimp only at hs
  cases hu : sys.updates with
  | nil =>
    rw [hu] at hs
    cases hs
  | cons call rest =>
    obtain ⟨q, value, len⟩ := call
    have hcall := h.updates _ (hu ▸ List.mem_cons_self)
    have hrest : ∀ u ∈ rest, u.2.2 < propValueMax → u.2.2 ≤ u.2.1.length ∧ 0 ∉ u.2.1 :=
      fun u hmem ↦ h.updates u (hu ▸ List.mem_cons_of_mem _ hmem)
    rw [hu] at hs
    dsimp only at hs
    split_ifs at hs with hbig
    · -- refused: only the call is gone
      cases hs
      exact ⟨h.length_lt, h.serialValueLen_eq, hw ▸ h.phase, hrest⟩
    · -- the first load of the serial, before any byte is saved
      cases hs
      have hlt : len < propValueMax := not_le.mp hbig
      refine ⟨h.length_lt, h.serialValueLen_eq, ?_, hrest⟩
      exact ⟨⟨hlt, hcall hlt⟩, rfl, hclean, Nat.zero_le _, fun j hj ↦ absurd hj (Nat.not_lt_zero j)⟩

theorem updateStep_backingUp (h : sys.WriterOk) (hw : sys.writer = .backingUp q value len serial i)
    (hs : updateStep pi sys = some sys') : sys'.WriterOk := by
  obtain ⟨hargs, hserial, hclean, hi, hsaved⟩ : UpdateArgsOk value len ∧ sys.shared.serial q = serial ∧
      (∀ p, Clean sys.shared sys.committed p) ∧ i ≤ (sys.committed q).length ∧
      ∀ j < i, sys.shared.backup j = (sys.committed q).getD j 0 := by
    simpa [WriterInv, hw] using h.phase
  have hlen : serialValueLen serial = (sys.committed q).length := hserial ▸ h.serialValueLen_eq q
  -- the byte saved now is byte `i` of the value
  have hbyte : sys.shared.value q i = (sys.committed q).getD i 0 := (hclean q).2 i hi
  have hsaved' : ∀ j < i + 1, Function.update sys.shared.backup i (sys.shared.value q i) j =
      (sys.committed q).getD j 0 := by
    intro j hj
    by_cases hji : j = i
    · rw [hji, Function.update_self, hbyte]
    · rw [Function.update_of_ne hji]
      exact hsaved j (by omega)
  unfold updateStep at hs
  rw [hw] at hs
  dsimp only at hs
  split_ifs at hs with hmore
  · cases hs
    exact ⟨h.length_lt, h.serialValueLen_eq,
      ⟨hargs, hserial, hclean, (by omega : i + 1 ≤ (sys.committed q).length), hsaved'⟩, h.updates⟩
  · cases hs
    refine ⟨h.length_lt, h.serialValueLen_eq, ⟨hargs, hserial, hclean, ?_⟩, h.updates⟩
    intro j hj
    exact hsaved' j (by dsimp only at hj; omega)

theorem updateStep_markingDirty (h : sys.WriterOk)
    (hw : sys.writer = .markingDirty q value len serial) (hs : updateStep pi sys = some sys') :
    sys'.WriterOk := by
  obtain ⟨hargs, hserial, hclean, hbackup⟩ : UpdateArgsOk value len ∧ sys.shared.serial q = serial ∧
      (∀ p, Clean sys.shared sys.committed p) ∧ HoldsString sys.shared.backup (sys.committed q) := by
    simpa [WriterInv, hw] using h.phase
  have hdirty : serialDirty serial = false := hserial ▸ (hclean q).1
  unfold updateStep at hs
  rw [hw] at hs
  cases hs
  refine ⟨h.length_lt, ?_, ⟨hargs, Function.update_self .., serialDirty_or_one hdirty, ?_, hbackup,
    Nat.zero_le _, fun j hj ↦ absurd hj (Nat.not_lt_zero j)⟩, h.updates⟩
  · -- marking keeps the length in the serial
    intro p
    dsimp only
    by_cases hpq : p = q
    · subst hpq
      rw [Function.update_self, serialValueLen_or_one hdirty, ← hserial]
      exact h.serialValueLen_eq p
    · rw [Function.update_of_ne hpq]
      exact h.serialValueLen_eq p
  · intro p hpq
    refine ⟨?_, (hclean p).2⟩
    show serialDirty (Function.update sys.shared.serial q (serial ||| 1) p) = false
    rw [Function.update_of_ne hpq]
    exact (hclean p).1

theorem updateStep_copying (h : sys.WriterOk) (hw : sys.writer = .copying q value len serial i)
    (hs : updateStep pi sys = some sys') : sys'.WriterOk := by
  obtain ⟨hargs, hserial, hdirty, hclean, hbackup, hi, hwritten⟩ : UpdateArgsOk value len ∧
      sys.shared.serial q = serial ∧ serialDirty serial = true ∧
      (∀ p ≠ q, Clean sys.shared sys.committed p) ∧ HoldsString sys.shared.backup (sys.committed q) ∧
      i ≤ len ∧ ∀ j < i, sys.shared.value q j = (value.take len).getD j 0 := by
    simpa [WriterInv, hw] using h.phase
  -- the bytes written so far stay, whatever byte is written at `i`
  have hwritten' : ∀ c : UInt8, ∀ j < i, (sys.shared.setValue q i c).value q j =
      (value.take len).getD j 0 := by
    intro c j hj
    rw [Shared.setValue_value_self, if_neg (by omega)]
    exact hwritten j hj
  have hclean' : ∀ c : UInt8, ∀ p ≠ q, Clean (sys.shared.setValue q i c) sys.committed p :=
    fun c p hpq ↦ (hclean p hpq).setValue hpq i c
  unfold updateStep at hs
  rw [hw] at hs
  dsimp only at hs
  split_ifs at hs with hmore
  · -- a byte of the new value
    cases hs
    refine ⟨h.length_lt, h.serialValueLen_eq, ⟨hargs, hserial, hdirty, hclean' _, hbackup, by omega,
      ?_⟩, h.updates⟩
    intro j hj
    by_cases hji : j = i
    · rw [Shared.setValue_value_self, if_pos hji, hji, take_getD_of_lt hmore.1]
    · exact hwritten' _ j (by omega)
  · -- the terminator, at byte `len`
    cases hs
    have hlen : i = len := strlcpy_stops hargs hi hmore
    refine ⟨h.length_lt, h.serialValueLen_eq, ⟨hargs, hserial, hdirty, hclean' _, hbackup, ?_⟩,
      h.updates⟩
    intro j hj
    rw [List.length_take, min_eq_left hargs.2.1] at hj
    by_cases hji : j = i
    · rw [Shared.setValue_value_self, if_pos hji, List.getD_eq_default _ _ (by simp; omega)]
    · exact hwritten' _ j (by omega)

theorem updateStep_publishing (h : sys.WriterOk) (hw : sys.writer = .publishing q value len serial)
    (hs : updateStep pi sys = some sys') : sys'.WriterOk := by
  obtain ⟨hargs, hserial, hdirty, hclean, -, hvalue⟩ : UpdateArgsOk value len ∧
      sys.shared.serial q = serial ∧ serialDirty serial = true ∧
      (∀ p ≠ q, Clean sys.shared sys.committed p) ∧ HoldsString sys.shared.backup (sys.committed q) ∧
      HoldsString (sys.shared.value q) (value.take len) := by
    simpa [WriterInv, hw] using h.phase
  have htake : (value.take len).length = len := by
    rw [List.length_take, min_eq_left hargs.2.1]
  have hlen : len < 2 ^ 8 := by
    have := hargs.1
    unfold propValueMax at this
    omega
  unfold updateStep at hs
  rw [hw] at hs
  cases hs
  refine ⟨?_, ?_, ?_, h.updates⟩
  · intro p
    dsimp only
    by_cases hpq : p = q
    · subst hpq
      rw [Function.update_self, htake]
      exact hargs.1
    · rw [Function.update_of_ne hpq]
      exact h.length_lt p
  · intro p
    dsimp only
    by_cases hpq : p = q
    · subst hpq
      rw [Function.update_self, Function.update_self, serialValueLen_publishedSerial _ hlen, htake]
    · rw [Function.update_of_ne hpq, Function.update_of_ne hpq]
      exact h.serialValueLen_eq p
  · -- every property is clean again, `q` with its new value
    intro p
    dsimp only [WriterInv, Clean]
    by_cases hpq : p = q
    · subst hpq
      refine ⟨?_, ?_⟩
      · rw [Function.update_self]
        exact serialDirty_publishedSerial hdirty hlen
      · rw [Function.update_self]
        exact hvalue
    · refine ⟨?_, ?_⟩
      · rw [Function.update_of_ne hpq]
        exact (hclean p hpq).1
      · rw [Function.update_of_ne hpq]
        exact (hclean p hpq).2

theorem updateStep (h : sys.WriterOk) (hs : updateStep pi sys = some sys') : sys'.WriterOk := by
  cases hw : sys.writer with
  | idle => exact h.updateStep_idle pi hw hs
  | backingUp q value len serial i => exact h.updateStep_backingUp pi hw hs
  | markingDirty q value len serial => exact h.updateStep_markingDirty pi hw hs
  | copying q value len serial i => exact h.updateStep_copying pi hw hs
  | publishing q value len serial => exact h.updateStep_publishing pi hw hs

omit [DecidableEq ι] in
theorem readStep (h : sys.WriterOk) (hs : readStep pi sys = some sys') : sys'.WriterOk := by
  have hsame : sys'.shared = sys.shared ∧ sys'.updates = sys.updates ∧ sys'.writer = sys.writer ∧
      sys'.committed = sys.committed := by
    unfold SystemProperties.readStep at hs
    split at hs
    · cases hs
      exact ⟨rfl, rfl, rfl, rfl⟩
    · dsimp only at hs
      split_ifs at hs <;> cases hs <;> exact ⟨rfl, rfl, rfl, rfl⟩
    · dsimp only at hs
      split_ifs at hs <;> cases hs <;> exact ⟨rfl, rfl, rfl, rfl⟩
    · cases hs
  obtain ⟨hshared, hupdates, hwriter, hcommitted⟩ := hsame
  refine ⟨?_, ?_, ?_, ?_⟩
  · rw [hcommitted]
    exact h.length_lt
  · rw [hshared, hcommitted]
    exact h.serialValueLen_eq
  · rw [hshared, hcommitted, hwriter]
    exact h.phase
  · rw [hupdates]
    exact h.updates

end UpdateSystem.WriterOk

end Invariant

/-! ### The reader's invariant -/

section Reader

variable {ι : Type} (pi : ι)

/-- What the reader knows of the copy it makes after loading `serial`: the serial of `pi` has
counted `sinceLoad` more updates since, a dirty serial stays dirty until the first of them, and
while none is counted and the serial is the one loaded, the bytes copied are those of the value. -/
structure Snapshot (sys : UpdateSystem ι) (serial : UInt32) (buf : ℕ → UInt8) (copied : ℕ) :
    Prop where
  epoch_eq : serialEpoch (sys.shared.serial pi) = (serialEpoch serial + sys.sinceLoad) % 2 ^ 23
  sinceLoad_le : sys.sinceLoad ≤ sys.published
  dirty_of_dirty : sys.sinceLoad = 0 → serialDirty serial = true →
    serialDirty (sys.shared.serial pi) = true
  copied_eq : sys.sinceLoad = 0 → sys.shared.serial pi = serial →
    ∀ j < copied, buf j = (sys.committed pi).getD j 0

/-- The reader's part of the invariant, at each of its places: once it has returned, what it
returned is a value of `pi` from the read, unless the serial counted `2 ^ 23` updates in it. -/
def ReaderInv (sys : UpdateSystem ι) : Prop :=
  match sys.reader with
  | .start _ => True
  | .copying serial i buf => i ≤ serialValueLen serial ∧ Snapshot pi sys serial buf i
  | .checking serial buf => Snapshot pi sys serial buf (serialValueLen serial + 1)
  | .done serial buf => sys.published < 2 ^ 23 →
      ∃ v ∈ sys.history, serialValueLen serial = v.length ∧ HoldsString buf v

/-- The invariant of every state a run reaches. -/
structure UpdateSystem.Inv (sys : UpdateSystem ι) : Prop where
  writerOk : sys.WriterOk
  mem_history : sys.reader.result = none → sys.committed pi ∈ sys.history
  reader : ReaderInv pi sys

variable {pi} {sys sys' : UpdateSystem ι} {serial : UInt32} {buf : ℕ → UInt8} {copied : ℕ}

theorem Snapshot.congr (hs : Snapshot pi sys serial buf copied)
    (hserial : sys'.shared.serial pi = sys.shared.serial pi)
    (hcommitted : sys'.committed pi = sys.committed pi) (hsince : sys'.sinceLoad = sys.sinceLoad)
    (hpublished : sys'.published = sys.published) : Snapshot pi sys' serial buf copied where
  epoch_eq := by rw [hserial, hsince]; exact hs.epoch_eq
  sinceLoad_le := by rw [hsince, hpublished]; exact hs.sinceLoad_le
  dirty_of_dirty := by rw [hserial, hsince]; exact hs.dirty_of_dirty
  copied_eq := by rw [hserial, hsince, hcommitted]; exact hs.copied_eq

theorem Snapshot.load (hsince : sys.sinceLoad = 0) :
    Snapshot pi sys (sys.shared.serial pi) buf 0 where
  epoch_eq := by
    rw [hsince, Nat.add_zero, Nat.mod_eq_of_lt (serialEpoch_lt _)]
  sinceLoad_le := by
    rw [hsince]
    exact Nat.zero_le _
  dirty_of_dirty := fun _ h ↦ h
  copied_eq := fun _ _ j hj ↦ absurd hj (Nat.not_lt_zero j)

/-- The writer marking `pi` dirty keeps a snapshot: a serial loaded before was clean, and the
loaded one is no longer there. -/
theorem Snapshot.mark (hs : Snapshot pi sys serial buf copied)
    (hclean : serialDirty (sys.shared.serial pi) = false)
    (hserial : sys'.shared.serial pi = sys.shared.serial pi ||| 1)
    (hsince : sys'.sinceLoad = sys.sinceLoad) (hpublished : sys'.published = sys.published) :
    Snapshot pi sys' serial buf copied where
  epoch_eq := by rw [hserial, serialEpoch_or_one hclean, hsince]; exact hs.epoch_eq
  sinceLoad_le := by rw [hsince, hpublished]; exact hs.sinceLoad_le
  dirty_of_dirty := fun _ _ ↦ hserial ▸ serialDirty_or_one hclean
  copied_eq := by
    intro h0 hloaded
    -- the loaded serial would be dirty, so it was dirty at the load and is dirty now
    have hdirty : serialDirty serial = true := hloaded ▸ hserial ▸ serialDirty_or_one hclean
    rw [hs.dirty_of_dirty (hsince ▸ h0) hdirty] at hclean
    cases hclean

theorem Snapshot.publish (hs : Snapshot pi sys serial buf copied)
    (hdirty : serialDirty (sys.shared.serial pi) = true) {len : ℕ} (hlen : len < 2 ^ 8)
    (hserial : sys'.shared.serial pi = publishedSerial len (sys.shared.serial pi))
    (hsince : sys'.sinceLoad = sys.sinceLoad + 1) (hpublished : sys'.published = sys.published + 1) :
    Snapshot pi sys' serial buf copied where
  epoch_eq := by
    rw [hserial, serialEpoch_publishedSerial hdirty hlen, hs.epoch_eq, hsince]
    omega
  sinceLoad_le := by
    have := hs.sinceLoad_le
    omega
  dirty_of_dirty := fun h0 ↦ absurd (hsince ▸ h0) (Nat.succ_ne_zero _)
  copied_eq := fun h0 ↦ absurd (hsince ▸ h0) (Nat.succ_ne_zero _)

/-- Copying one more byte keeps a snapshot: while the loaded serial is there and nothing is
counted, the source the reader picks holds the value. -/
theorem Snapshot.copy [DecidableEq ι] (hs : Snapshot pi sys serial buf copied) (hw : sys.WriterOk)
    (hcopied : copied ≤ serialValueLen serial) :
    Snapshot pi sys serial
      (Function.update buf copied
        ((if serialDirty serial then sys.shared.backup else sys.shared.value pi) copied))
      (copied + 1) where
  epoch_eq := hs.epoch_eq
  sinceLoad_le := hs.sinceLoad_le
  dirty_of_dirty := hs.dirty_of_dirty
  copied_eq := by
    intro h0 hloaded j hj
    have hlen : copied ≤ (sys.committed pi).length := by
      rw [← hw.serialValueLen_eq pi, hloaded]
      exact hcopied
    by_cases hjc : j = copied
    · subst hjc
      rw [Function.update_self]
      split_ifs with hdirty
      · exact hw.phase.backup_of_dirty (hloaded ▸ hdirty) j hlen
      · exact hw.phase.value_of_clean (hloaded ▸ Bool.eq_false_iff.mpr hdirty) j hlen
    · rw [Function.update_of_ne hjc]
      exact hs.copied_eq h0 hloaded j (by omega)

/-- A check that finds the loaded serial again, with fewer than `2 ^ 23` updates in the read,
finds nothing counted since the load: the copy is the value. -/
theorem Snapshot.value_of_check (hs : Snapshot pi sys serial buf (serialValueLen serial + 1))
    (hw : sys.WriterOk) (hloaded : serial = sys.shared.serial pi) (hfew : sys.published < 2 ^ 23) :
    serialValueLen serial = (sys.committed pi).length ∧ HoldsString buf (sys.committed pi) := by
  have hepoch := hs.epoch_eq
  rw [← hloaded] at hepoch
  have hlt := serialEpoch_lt serial
  have hle := hs.sinceLoad_le
  -- the serial is back where it was only after a multiple of `2 ^ 23` updates
  have h0 : sys.sinceLoad = 0 := by omega
  have hlen : serialValueLen serial = (sys.committed pi).length :=
    hloaded ▸ hw.serialValueLen_eq pi
  refine ⟨hlen, fun j hj ↦ hs.copied_eq h0 hloaded.symm j (by omega)⟩

/-- The reader's invariant survives a step of the writer that keeps every snapshot and, once the
reader has returned, the counts and the history. -/
theorem ReaderInv.of_writer (h : ReaderInv pi sys) (hreader : sys'.reader = sys.reader)
    (hsnap : sys.reader.result = none → ∀ serial buf copied,
      Snapshot pi sys serial buf copied → Snapshot pi sys' serial buf copied)
    (hdone : sys.reader.result ≠ none → sys'.published = sys.published ∧ sys'.history = sys.history) :
    ReaderInv pi sys' := by
  unfold ReaderInv at h ⊢
  rw [hreader]
  cases hr : sys.reader with
  | start buf => trivial
  | copying serial i buf =>
    rw [hr] at h
    exact ⟨h.1, hsnap (by rw [hr]; rfl) _ _ _ h.2⟩
  | checking serial buf =>
    rw [hr] at h
    exact hsnap (by rw [hr]; rfl) _ _ _ h
  | done serial buf =>
    rw [hr] at h
    obtain ⟨hpublished, hhistory⟩ := hdone (by rw [hr]; simp [ReadPc.result])
    rw [hpublished, hhistory]
    exact h

/-! ### Each step keeps the invariant -/

variable [DecidableEq ι]

/-- What a step of the writer does to what the reader sees: nothing, or it marks the clean serial
of `pi` dirty, or it publishes an update of `pi`, counted when the read goes on. -/
theorem updateStep_effect (hw : sys.WriterOk) (hs : updateStep pi sys = some sys') :
    sys'.reader = sys.reader ∧
      ((sys'.shared.serial pi = sys.shared.serial pi ∧ sys'.committed pi = sys.committed pi ∧
          sys'.sinceLoad = sys.sinceLoad ∧ sys'.published = sys.published ∧
          sys'.history = sys.history) ∨
        (serialDirty (sys.shared.serial pi) = false ∧
          sys'.shared.serial pi = sys.shared.serial pi ||| 1 ∧
          sys'.committed pi = sys.committed pi ∧ sys'.sinceLoad = sys.sinceLoad ∧
          sys'.published = sys.published ∧ sys'.history = sys.history) ∨
        (∃ (value : List UInt8) (len : ℕ), len < 2 ^ 8 ∧ serialDirty (sys.shared.serial pi) = true ∧
          sys'.shared.serial pi = publishedSerial len (sys.shared.serial pi) ∧
          sys'.committed pi = value.take len ∧
          (sys.reader.result = none → sys'.sinceLoad = sys.sinceLoad + 1 ∧
            sys'.published = sys.published + 1 ∧ sys'.history = sys.history ++ [value.take len]) ∧
          (sys.reader.result ≠ none → sys'.published = sys.published ∧
            sys'.history = sys.history))) := by
  have hphase := hw.phase
  unfold updateStep at hs
  cases hwriter : sys.writer with
  | idle =>
    rw [hwriter] at hs
    dsimp only at hs
    split at hs
    · cases hs
    · split_ifs at hs <;> cases hs <;> exact ⟨rfl, Or.inl ⟨rfl, rfl, rfl, rfl, rfl⟩⟩
  | backingUp q value len serial i =>
    rw [hwriter] at hs
    dsimp only at hs
    split_ifs at hs <;> cases hs <;> exact ⟨rfl, Or.inl ⟨rfl, rfl, rfl, rfl, rfl⟩⟩
  | markingDirty q value len serial =>
    rw [hwriter] at hs
    cases hs
    by_cases hq : q = pi
    · -- the serial of `pi` goes dirty
      subst hq
      rw [hwriter] at hphase
      obtain ⟨-, hserial, hclean, -⟩ := hphase
      refine ⟨rfl, Or.inr (Or.inl ⟨(hclean q).1, ?_, rfl, rfl, rfl, rfl⟩)⟩
      show Function.update sys.shared.serial q (serial ||| 1) q = sys.shared.serial q ||| 1
      rw [Function.update_self, hserial]
    · refine ⟨rfl, Or.inl ⟨Function.update_of_ne (Ne.symm hq) _ _, rfl, rfl, rfl, rfl⟩⟩
  | copying q value len serial i =>
    rw [hwriter] at hs
    dsimp only at hs
    split_ifs at hs <;> cases hs <;> exact ⟨rfl, Or.inl ⟨rfl, rfl, rfl, rfl, rfl⟩⟩
  | publishing q value len serial =>
    rw [hwriter] at hs
    cases hs
    by_cases hq : q = pi
    · -- an update of `pi` is published
      subst hq
      rw [hwriter] at hphase
      obtain ⟨hargs, hserial, hdirty, -⟩ := hphase
      have hlen : len < 2 ^ 8 := by
        have := hargs.1
        unfold propValueMax at this
        omega
      refine ⟨rfl, Or.inr (Or.inr ⟨value, len, hlen, hserial ▸ hdirty, ?_, ?_, ?_, ?_⟩)⟩
      · show Function.update sys.shared.serial q (publishedSerial len serial) q = _
        rw [Function.update_self, hserial]
      · exact Function.update_self ..
      · intro hnone
        simp [hnone]
      · intro hsome
        simp [hsome]
    · -- another property is published, which the reader does not count
      refine ⟨rfl, Or.inl ⟨Function.update_of_ne (Ne.symm hq) _ _,
        Function.update_of_ne (Ne.symm hq) _ _, ?_, ?_, ?_⟩⟩ <;> simp [hq]

theorem UpdateSystem.Inv.updateStep (h : sys.Inv pi) (hs : updateStep pi sys = some sys') :
    sys'.Inv pi := by
  obtain ⟨hreader, hcase⟩ := updateStep_effect h.writerOk hs
  refine ⟨h.writerOk.updateStep pi hs, ?_, ?_⟩
  · rw [hreader]
    intro hnone
    rcases hcase with ⟨-, hcommitted, -, -, hhistory⟩ | ⟨-, -, hcommitted, -, -, hhistory⟩ |
        ⟨value, len, -, -, -, hcommitted, hcounted, -⟩
    · rw [hcommitted, hhistory]
      exact h.mem_history hnone
    · rw [hcommitted, hhistory]
      exact h.mem_history hnone
    · rw [hcommitted, (hcounted hnone).2.2]
      exact List.mem_append_right _ (List.mem_singleton_self _)
  · rcases hcase with ⟨hserial, hcommitted, hsince, hpublished, hhistory⟩ |
        ⟨hclean, hserial, hcommitted, hsince, hpublished, hhistory⟩ |
        ⟨value, len, hlen, hdirty, hserial, -, hcounted, hkept⟩
    · exact h.reader.of_writer hreader
        (fun _ _ _ _ hsnap ↦ hsnap.congr hserial hcommitted hsince hpublished)
        fun _ ↦ ⟨hpublished, hhistory⟩
    · exact h.reader.of_writer hreader
        (fun _ _ _ _ hsnap ↦ hsnap.mark hclean hserial hsince hpublished)
        fun _ ↦ ⟨hpublished, hhistory⟩
    · exact h.reader.of_writer hreader
        (fun hnone _ _ _ hsnap ↦
          hsnap.publish hdirty hlen hserial (hcounted hnone).1 (hcounted hnone).2.1)
        hkept

theorem UpdateSystem.Inv.readStep (h : sys.Inv pi) (hs : readStep pi sys = some sys') :
    sys'.Inv pi := by
  have hw := h.writerOk.readStep pi hs
  have hreader := h.reader
  unfold ReaderInv at hreader
  unfold SystemProperties.readStep at hs
  cases hr : sys.reader with
  | start buf =>
    rw [hr] at hs
    cases hs
    refine ⟨hw, fun _ ↦ h.mem_history (by rw [hr]; rfl), ?_⟩
    unfold ReaderInv
    exact ⟨Nat.zero_le _, Snapshot.load rfl⟩
  | copying serial i buf =>
    rw [hr] at hs hreader
    dsimp only at hs hreader
    obtain ⟨hi, hsnap⟩ := hreader
    have hcopy := hsnap.copy h.writerOk hi
    by_cases hlt : i < serialValueLen serial
    · rw [if_pos hlt] at hs
      cases hs
      refine ⟨hw, fun _ ↦ h.mem_history (by rw [hr]; rfl), ?_⟩
      unfold ReaderInv
      exact ⟨hlt, hcopy.congr rfl rfl rfl rfl⟩
    · -- the terminator is copied: the check comes next
      rw [if_neg hlt] at hs
      cases hs
      obtain rfl : i = serialValueLen serial := by omega
      refine ⟨hw, fun _ ↦ h.mem_history (by rw [hr]; rfl), ?_⟩
      unfold ReaderInv
      exact hcopy.congr rfl rfl rfl rfl
  | checking serial buf =>
    rw [hr] at hs hreader
    dsimp only at hs
    split_ifs at hs with hsame
    · -- the serial is the one loaded: the reader returns what it copied
      cases hs
      refine ⟨hw, fun hnone ↦ absurd hnone (by simp [ReadPc.result]), ?_⟩
      unfold ReaderInv
      intro hfew
      obtain ⟨hlen, hholds⟩ := hreader.value_of_check h.writerOk hsame hfew
      exact ⟨_, h.mem_history (by rw [hr]; rfl), hlen, hholds⟩
    · -- the serial moved on: the reader loads it again and starts over
      cases hs
      refine ⟨hw, fun _ ↦ h.mem_history (by rw [hr]; rfl), ?_⟩
      unfold ReaderInv
      exact ⟨Nat.zero_le _, Snapshot.load rfl⟩
  | done serial buf =>
    rw [hr] at hs
    cases hs

theorem UpdateSystem.inv_stable : Stable (step pi) (UpdateSystem.Inv pi) := by
  intro a sys sys' h hs
  cases a with
  | writer => exact h.updateStep hs
  | reader => exact h.readStep hs

/-! ### Runs -/

variable (pi) in
/-- A state in which a read of `pi` starts: no update under way, every property clean with a
length that fits its serial, the history holding the value of `pi` and nothing counted, and every
call still to make with a C string of at least `len` bytes. -/
structure UpdateSystem.Init (sys : UpdateSystem ι) : Prop where
  writer_eq : sys.writer = .idle
  reader_eq : ∃ buf, sys.reader = .start buf
  length_lt : ∀ p, (sys.committed p).length < propValueMax
  serialValueLen_eq : ∀ p, serialValueLen (sys.shared.serial p) = (sys.committed p).length
  clean : ∀ p, Clean sys.shared sys.committed p
  updates : ∀ u ∈ sys.updates, u.2.2 < propValueMax → u.2.2 ≤ u.2.1.length ∧ 0 ∉ u.2.1
  history_eq : sys.history = [sys.committed pi]
  published_eq : sys.published = 0

omit [DecidableEq ι] in
theorem UpdateSystem.Init.inv (h : sys.Init pi) : sys.Inv pi where
  writerOk := by
    refine ⟨h.length_lt, h.serialValueLen_eq, ?_, h.updates⟩
    rw [h.writer_eq]
    exact h.clean
  mem_history := fun _ ↦ h.history_eq ▸ List.mem_singleton_self _
  reader := by
    obtain ⟨buf, hbuf⟩ := h.reader_eq
    unfold ReaderInv
    rw [hbuf]
    trivial

theorem UpdateSystem.inv_run (h : sys.Init pi) (schedule : List Agent) :
    (run (step pi) sys schedule).Inv pi :=
  inv_stable.run h.inv schedule

/-- A read that returns, with fewer than `2 ^ 23` updates of `pi` completed while it went on,
returns a value `pi` held during the read, with the terminator at the length in the returned
serial. -/
theorem readMutablePropertyValue_held (h : sys.Init pi) (schedule : List Agent)
    (hdone : (run (step pi) sys schedule).reader = .done serial buf)
    (hfew : (run (step pi) sys schedule).published < 2 ^ 23) :
    ∃ v ∈ (run (step pi) sys schedule).history,
      serialValueLen serial = v.length ∧ HoldsString buf v := by
  have hreader := (UpdateSystem.inv_run h schedule).reader
  unfold ReaderInv at hreader
  rw [hdone] at hreader
  exact hreader hfew

end Reader

/-- One property holding "a", and an update of it to "b" still to make. -/
def sampleUpdateSystem : UpdateSystem Unit where
  shared := { serial := fun _ ↦ (1 : UInt32) <<< 24, value := fun _ j ↦ [97].getD j 0, backup := fun _ ↦ 0 }
  updates := [((), [98], 1)]
  writer := .idle
  reader := .start fun _ ↦ 0
  committed := fun _ ↦ [97]
  history := [[97]]
  published := 0
  sinceLoad := 0

theorem sampleUpdateSystem_init : sampleUpdateSystem.Init () where
  writer_eq := rfl
  reader_eq := ⟨_, rfl⟩
  length_lt := fun () ↦ by decide
  serialValueLen_eq := fun () ↦ by decide
  clean := fun () ↦ ⟨by decide, fun _ _ ↦ rfl⟩
  updates := by decide
  history_eq := rfl
  published_eq := rfl

/-- The writer backs up "a" and marks the serial dirty, then the whole read runs. -/
def dirtyReadSchedule : List Agent :=
  [.writer, .writer, .writer, .writer, .reader, .reader, .reader, .reader]

theorem readMutablePropertyValue_held_dirtyReadSchedule :
    ∃ serial buf, (run (step ()) sampleUpdateSystem dirtyReadSchedule).reader = .done serial buf ∧
      ∃ v ∈ (run (step ()) sampleUpdateSystem dirtyReadSchedule).history,
        serialValueLen serial = v.length ∧ HoldsString buf v :=
  ⟨_, _, rfl, readMutablePropertyValue_held sampleUpdateSystem_init dirtyReadSchedule rfl
    (by decide)⟩

/-- The read returns a dirty serial: it loads the serial after the writer marked it dirty, copies
the old value from the backup area, and finds the same serial again before the writer stores the
new one. -/
theorem readMutablePropertyValue_dirty_serial :
    sampleUpdateSystem.Init () ∧
      (run (step ()) sampleUpdateSystem dirtyReadSchedule).reader.result =
        some (((1 : UInt32) <<< 24) ||| 1) ∧
      serialDirty (((1 : UInt32) <<< 24) ||| 1) = true :=
  ⟨sampleUpdateSystem_init, by decide, by decide⟩

/-! ### The counter of updates and `kLongFlag` -/

/-- The serial that a whole `Update(pi, value, len)` leaves: `serial |= 1`, then
`(len << 24) | ((serial + 1) & 0xffffff)`. -/
def updatedSerial (serial : UInt32) (len : ℕ) : UInt32 := publishedSerial len (serial ||| 1)

/-- `prop_info::is_long()`. -/
def isLong (serial : UInt32) : Bool := serial &&& kLongFlag != 0

theorem isLong_eq (serial : UInt32) : isLong serial = decide (serial.toNat / 2 ^ 16 % 2 = 1) := by
  have hdiv : (serial.toNat &&& 2 ^ 16) / 2 ^ 16 = serial.toNat / 2 ^ 16 % 2 := by
    rw [Nat.and_div_two_pow, Nat.div_self (by norm_num)]
    exact Nat.and_two_pow_sub_one_eq_mod _ 1
  have hmod : (serial.toNat &&& 2 ^ 16) % 2 ^ 16 = 0 := by
    rw [Nat.and_mod_two_pow, Nat.mod_self, Nat.and_zero]
  have hand : (serial &&& kLongFlag).toNat = serial.toNat &&& 2 ^ 16 := by
    rw [UInt32.toNat_and]
    rfl
  rw [isLong, Bool.eq_iff_iff, bne_iff_ne, decide_eq_true_iff, ne_eq, ← UInt32.toNat_inj, hand,
    UInt32.toNat_zero]
  omega

/-- An update of a clean serial adds two to its low 24 bits; the run lemma below follows it over
a sequence of updates, which keep the serial clean. -/
theorem toNat_updatedSerial {serial : UInt32} (h : serialDirty serial = false) {len : ℕ}
    (hlen : len < 2 ^ 8) :
    (updatedSerial serial len).toNat = len * 2 ^ 24 + (serial.toNat + 2) % 2 ^ 24 := by
  rw [updatedSerial, toNat_publishedSerial len _ hlen, toNat_or_one h]

theorem lt_of_lt_propValueMax {len : ℕ} (h : len < propValueMax) : len < 2 ^ 8 := by
  unfold propValueMax at h
  omega

theorem toNat_foldl_updatedSerial (lens : List ℕ) (hlens : ∀ len ∈ lens, len < propValueMax) :
    ∀ serial : UInt32, serialDirty serial = false →
      (lens.foldl updatedSerial serial).toNat =
        lens.getLastD (serialValueLen serial) * 2 ^ 24 + (serial.toNat + 2 * lens.length) % 2 ^ 24 := by
  induction lens with
  | nil =>
    intro serial _
    simp only [List.foldl_nil, List.getLastD_nil, serialValueLen_eq, List.length_nil]
    omega
  | cons len rest ih =>
    intro serial h
    have hlen := lt_of_lt_propValueMax (hlens len (by simp))
    have hclean : serialDirty (updatedSerial serial len) = false :=
      serialDirty_publishedSerial (serialDirty_or_one h) hlen
    have hvalue : serialValueLen (updatedSerial serial len) = len :=
      serialValueLen_publishedSerial _ hlen
    rw [List.foldl_cons, ih (fun l hl ↦ hlens l (by simp [hl])) _ hclean, hvalue,
      toNat_updatedSerial h hlen, List.getLastD_cons, List.length_cons]
    omega

theorem foldl_updatedSerial (lens : List ℕ) (hlens : ∀ len ∈ lens, len < propValueMax) :
    ∀ serial : UInt32, serialDirty serial = false →
      serialDirty (lens.foldl updatedSerial serial) = false ∧
        (lens.foldl updatedSerial serial).toNat % 2 ^ 24 = (serial.toNat + 2 * lens.length) % 2 ^ 24 := by
  intro serial h
  have htoNat := toNat_foldl_updatedSerial lens hlens serial h
  rw [serialDirty_eq, decide_eq_false_iff_not] at h
  refine ⟨?_, by omega⟩
  rw [serialDirty_eq]
  exact decide_eq_false (by omega)

theorem PropInfo.toNat_short_serial (name value : List UInt8) (namelen : ℕ) {valuelen : ℕ}
    (h : valuelen < 2 ^ 8) : (PropInfo.short name namelen value valuelen).serial.toNat = valuelen * 2 ^ 24 := by
  rw [PropInfo.short, UInt32.toNat_shiftLeft, UInt32.toNat_ofNat',
    show (24 : UInt32).toNat % 32 = 24 from rfl, Nat.shiftLeft_eq]
  omega

/-- Below `2 ^ 15` updates a short property stays short and clean, with the last length written. -/
theorem update_keeps_short (name value : List UInt8) (namelen valuelen : ℕ)
    (hvaluelen : valuelen < propValueMax) (lens : List ℕ) (hlens : ∀ len ∈ lens, len < propValueMax)
    (hcount : lens.length < 2 ^ 15) :
    let serial := lens.foldl updatedSerial (PropInfo.short name namelen value valuelen).serial
    serialDirty serial = false ∧ isLong serial = false ∧ serialValueLen serial = lens.getLastD valuelen := by
  intro serial
  have hshort := lt_of_lt_propValueMax hvaluelen
  have hinit := PropInfo.toNat_short_serial name value namelen hshort
  have hclean : serialDirty (PropInfo.short name namelen value valuelen).serial = false := by
    rw [serialDirty_eq, hinit]
    exact decide_eq_false (by omega)
  -- the last length written is one of the lengths, all below `2 ^ 8`
  have hlast : lens.getLastD valuelen < 2 ^ 8 := by
    rcases List.mem_cons.mp List.getLastD_mem_cons with h | h
    · exact h ▸ hshort
    · exact lt_of_lt_propValueMax (hlens _ h)
  have hserial : serial.toNat = lens.getLastD valuelen * 2 ^ 24 + 2 * lens.length := by
    rw [toNat_foldl_updatedSerial lens hlens _ hclean, serialValueLen_eq, hinit,
      Nat.mul_div_cancel _ (by decide)]
    omega
  rw [serialDirty_eq, isLong_eq, serialValueLen_eq, hserial]
  exact ⟨decide_eq_false (by omega), decide_eq_false (by omega), by omega⟩

theorem update_keeps_short_five :
    serialValueLen ([5].foldl updatedSerial (PropInfo.short [97] 1 [98] 1).serial) = 5 :=
  (update_keeps_short [97] [98] 1 1 (by decide) [5] (by decide) (by decide)).2.2

/-- A property added with a short value is not long, but any `2 ^ 15` updates of it carry the
counter into bit 16, and `is_long()` then holds of it. -/
theorem update_carries_into_kLongFlag (name value : List UInt8) (namelen valuelen : ℕ)
    (hvaluelen : valuelen < propValueMax) (lens : List ℕ) (hlens : ∀ len ∈ lens, len < propValueMax)
    (hcount : lens.length = 2 ^ 15) :
    isLong (PropInfo.short name namelen value valuelen).serial = false ∧
      isLong (lens.foldl updatedSerial (PropInfo.short name namelen value valuelen).serial) = true := by
  unfold propValueMax at hvaluelen
  have hserial : (PropInfo.short name namelen value valuelen).serial.toNat = valuelen * 2 ^ 24 := by
    rw [PropInfo.short, UInt32.toNat_shiftLeft, UInt32.toNat_ofNat',
      show (24 : UInt32).toNat % 32 = 24 from rfl, Nat.shiftLeft_eq]
    omega
  have hclean : serialDirty (PropInfo.short name namelen value valuelen).serial = false := by
    rw [serialDirty_eq, hserial, decide_eq_false_iff_not]
    omega
  obtain ⟨-, hlow⟩ := foldl_updatedSerial lens hlens _ hclean
  rw [hserial, hcount] at hlow
  rw [isLong_eq, isLong_eq, hserial]
  constructor
  · simp only [decide_eq_false_iff_not]
    omega
  · simp only [decide_eq_true_iff]
    omega

end Bionic.SystemProperties
