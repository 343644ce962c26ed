import Bionic.SystemProperties.PropTrie
import Bionic.SystemProperties.PropertyUpdate

/-!
# `SystemProperties::Add` and the appcompat override area

`SystemProperties::Add` adds a property to the area of its context and, when the appcompat
override contexts are there, mirrors it into their area: under its own name, or, for a name
under `ro.appcompat_override.`, under the name without the prefix. When the override area holds
that property already and the name was an override, the mirror is `strlcpy` of the new value into
the `prop_info` that `find` returned (`PropInfo.storeValue`), with its `serial` left as it was.

Readers of a read-only property skip the copy loop: `ReadCallback` hands out `pi->value` (or
`long_value()` when `is_long()`) with the serial, whose top byte is the value's length. The
override store keeps that byte: a short value of another length leaves the length in the serial
stale, and a value of `PROP_VALUE_MAX` bytes or more, which `Add` takes for a read-only name,
runs past `value` into the name that follows it (`storeValue_of_short`, `storeValue_of_long`,
`add_appcompat_override_stale_serial`).
-/

set_option autoImplicit false
set_option relaxedAutoImplicit false

namespace Bionic.SystemProperties

open Bionic.Lib.CString

/-! ### Names -/

/-- `APPCOMPAT_PREFIX`, `"ro.appcompat_override."`. -/
def appcompatPrefix : List UInt8 :=
  [114, 111, 46, 97, 112, 112, 99, 111, 109, 112, 97, 116, 95, 111, 118, 101, 114, 114, 105, 100,
    101, 46]

/-- `is_appcompat_override(name)`. -/
def isAppcompatOverride (name : List UInt8) : Bool :=
  strncmp name appcompatPrefix appcompatPrefix.length == 0

/-- `is_read_only(name)`: `strncmp(name, "ro.", 3) == 0`. -/
def isReadOnly (name : List UInt8) : Bool := strncmp name [114, 111, 46] 3 == 0

/-! ### Storing into a `prop_info` -/

/-- `strlcpy(dst, src, size)` over the bytes from `dst` on: at most `size - 1` bytes of the C
string `src` and a zero, then the bytes that were there. -/
def strlcpyBytes (dst src : List UInt8) (size : ℕ) : List UInt8 :=
  if size = 0 then dst
  else
    let copied := (stringAt 0 src).take (size - 1)
    copied ++ 0 :: dst.drop (copied.length + 1)

/-- `strlcpy(pi->value, value, size)`. The bytes from `value` on are the `PROP_VALUE_MAX` bytes of
the union and then the name, the flexible array `name[0]` after it. The serial is not touched,
nor is the offset `long_value()` is read through, which a value of 56 bytes or more overwrites:
`longValue` stays as it was. -/
def PropInfo.storeValue (info : PropInfo) (value : List UInt8) (size : ℕ) : PropInfo :=
  let bytes := strlcpyBytes (info.value ++ info.name ++ [0]) value size
  { info with value := bytes.take propValueMax, name := stringAt 0 (bytes.drop propValueMax) }

/-! ### Storing through the pointer `find` returned -/

/-- The step of `find` along `path`, with `f` applied to the `prop_info` it reaches. -/
def modifyPath (paDataSize : ℕ) (f : PropInfo → PropInfo) : List (List UInt8) → NodeStep
  | [] => fun current bytesUsed ↦ ((current.1.map f, current.2), current.1.map f, bytesUsed)
  | segment :: rest => atChild paDataSize segment false (modifyPath paDataSize f rest)

/-- The area after a store through the `prop_info*` that `find(name)` returned. -/
def PropArea.modifyProp (area : PropArea) (name : List UInt8) (f : PropInfo → PropInfo) :
    PropArea :=
  { area with
    root := (visit (modifyPath area.paDataSize f (name.splitOn 46)) area.root area.bytesUsed).1 }

/-! ### `Add` -/

/-- What `Add` writes: the area of the name's context with the counter of the serial area, and the
same for the appcompat override contexts when they are there. Every name has one context. -/
structure Areas where
  pa : PropArea
  serial : ℕ
  override : Option (PropArea × ℕ)
  deriving DecidableEq, Repr

/-- The mirror of a property just added into the override area `other`, with the counter of its
serial area. A store into a `prop_info` found passes `CHECK(getpid() == 1 || getuid() == 0)`:
`Add` runs in `init`. -/
def addOverride (other : PropArea × ℕ) (name value : List UInt8) (valuelen : ℕ) : PropArea × ℕ :=
  let (otherPa, otherSerial) := other
  let isOverride := isAppcompatOverride name
  let overrideName := if isOverride then name.drop appcompatPrefix.length else name
  match otherPa.find overrideName with
  | none =>
    let (otherPa, ok) := otherPa.add overrideName overrideName.length value valuelen
    (otherPa, if ok then otherSerial + 1 else otherSerial)
  | some _ =>
    if isOverride then
      (otherPa.modifyProp overrideName (·.storeValue value (valuelen + 1)), otherSerial)
    else (otherPa, otherSerial)

/-- `SystemProperties::Add` once the system is initialized: the areas after it, and its result. -/
def Areas.add (areas : Areas) (name : List UInt8) (namelen : ℕ) (value : List UInt8)
    (valuelen : ℕ) : Areas × ℤ :=
  if valuelen ≥ propValueMax ∧ isReadOnly name = false then (areas, -1)
  else if namelen < 1 then (areas, -1)
  else
    let (pa, ret) := areas.pa.add name namelen value valuelen
    -- a failed `prop_area::add` may have made nodes before it ran out of room
    if ret = false then ({ areas with pa }, -1)
    else
      ({ pa, serial := areas.serial + 1,
          override := areas.override.map (addOverride · name value valuelen) }, 0)

/-- The areas of an initialized system with the appcompat override contexts, both empty. -/
def Areas.init (paDataSize : ℕ) : Areas := ⟨PropArea.init paDataSize, 0, some (PropArea.init paDataSize, 0)⟩

/-- What `find(name)` returns in the override area. -/
def Areas.findOverride (areas : Areas) (name : List UInt8) : Option PropInfo :=
  areas.override.bind (·.1.find name)

/-! ### What the override store leaves -/

section StoreValue

variable {info : PropInfo} {value : List UInt8} (hvalue : 0 ∉ value)

include hvalue

/-- The bytes `strlcpy(pi->value, value, valuelen + 1)` leaves from `value` on, for a C string
of `valuelen` bytes: the string, its terminator, and the rest as it was. -/
theorem strlcpyBytes_length_add_one (dst : List UInt8) :
    strlcpyBytes dst value (value.length + 1) = value ++ 0 :: dst.drop (value.length + 1) := by
  have hstring : stringAt 0 value = value := List.takeWhile_eq_self_iff.mpr fun c hc ↦ by
    simpa using ne_of_mem_of_not_mem hc hvalue
  simp only [strlcpyBytes, Nat.add_one_ne_zero, if_false, Nat.add_sub_cancel, hstring,
    List.take_length]

/-- A value shorter than `PROP_VALUE_MAX` is the new C string in `value`; the serial, with the
length that was there, and the name stay. -/
theorem storeValue_of_short (hinfo : info.value.length = propValueMax) (hname : 0 ∉ info.name)
    (hlen : value.length < propValueMax) :
    stringAt 0 (info.storeValue value (value.length + 1)).value = value ∧
      (info.storeValue value (value.length + 1)).serial = info.serial ∧
      (info.storeValue value (value.length + 1)).name = info.name := by
  -- the union is full: the copy, its terminator and the old bytes after it, then the name
  have hsplit : info.value ++ info.name ++ [0] =
      (info.value.take (value.length + 1) ++ info.value.drop (value.length + 1)) ++ info.name ++
        [0] := by
    rw [List.take_append_drop]
  have hbytes : strlcpyBytes (info.value ++ info.name ++ [0]) value (value.length + 1) =
      (value ++ 0 :: info.value.drop (value.length + 1)) ++ (info.name ++ 0 :: []) := by
    rw [strlcpyBytes_length_add_one hvalue, hsplit, List.append_assoc, List.append_assoc,
      List.drop_left' (by simp; omega)]
    simp
  have hunion : (value ++ 0 :: info.value.drop (value.length + 1)).length = propValueMax := by
    simp only [List.length_append, List.length_cons, List.length_drop]
    omega
  refine ⟨?_, rfl, ?_⟩
  · rw [PropInfo.storeValue, hbytes, List.take_left' hunion]
    exact stringAt_append_cons_terminator hvalue _
  · rw [PropInfo.storeValue, hbytes, List.drop_left' hunion]
    exact stringAt_append_cons_terminator hname []

/-- A value of `PROP_VALUE_MAX` bytes or more fills `value` with no terminator, and its bytes past
`PROP_VALUE_MAX` take the place of the name. -/
theorem storeValue_of_long (hlen : propValueMax ≤ value.length) :
    0 ∉ (info.storeValue value (value.length + 1)).value ∧
      (info.storeValue value (value.length + 1)).name = value.drop propValueMax := by
  have hvalue' : 0 ∉ value.drop propValueMax := fun h ↦ hvalue (List.mem_of_mem_drop h)
  rw [PropInfo.storeValue, strlcpyBytes_length_add_one hvalue, List.take_append_of_le_length hlen,
    List.drop_append_of_le_length hlen]
  exact ⟨fun h ↦ hvalue (List.mem_of_mem_take h), stringAt_append_cons_terminator hvalue' _⟩

end StoreValue

/-- In a system with the appcompat override contexts, `Add("ro.a", "b")` and then
`Add("ro.appcompat_override.ro.a", "cd")` both return `0` and leave the `prop_info` of `ro.a` in
the override area short, with value `"cd"` and a serial that gives length `1`. With a value of
`PROP_VALUE_MAX` bytes the second `Add` leaves that `prop_info` with no terminator in `value` and
an empty name. -/
theorem add_appcompat_override_stale_serial :
    ((Areas.init 1024).add [114, 111, 46, 97] 4 [98] 1).2 = 0 ∧
      (((Areas.init 1024).add [114, 111, 46, 97] 4 [98] 1).1.add
          (appcompatPrefix ++ [114, 111, 46, 97]) 26 [99, 100] 2).2 = 0 ∧
      ((((Areas.init 1024).add [114, 111, 46, 97] 4 [98] 1).1.add
          (appcompatPrefix ++ [114, 111, 46, 97]) 26 [99, 100] 2).1.findOverride
          [114, 111, 46, 97]).map
        (fun info ↦ (isReadOnly info.name, isLong info.serial, serialValueLen info.serial,
          stringAt 0 info.value)) = some (true, false, 1, [99, 100]) ∧
      (((Areas.init 1024).add [114, 111, 46, 97] 4 [98] 1).1.add
          (appcompatPrefix ++ [114, 111, 46, 97]) 26 (List.replicate propValueMax 120)
          propValueMax).2 = 0 ∧
      ((((Areas.init 1024).add [114, 111, 46, 97] 4 [98] 1).1.add
          (appcompatPrefix ++ [114, 111, 46, 97]) 26 (List.replicate propValueMax 120)
          propValueMax).1.findOverride [114, 111, 46, 97]).map
        (fun info ↦ (decide (0 ∈ info.value), info.name)) = some (false, []) := by
  decide

end Bionic.SystemProperties
