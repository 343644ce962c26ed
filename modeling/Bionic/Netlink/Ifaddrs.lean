import Mathlib.Data.List.TakeWhile
import Mathlib.Algebra.Order.Ring.Nat

/-!
# getifaddrs: the netlink callback and the memory it touches

`__getifaddrs_callback` turns one `RTM_NEWLINK` or `RTM_NEWADDR` message into a new
`ifaddrs_storage`. The model follows its control flow over the bytes from the message's
`nlmsghdr` on and records the accesses it makes: the bytes of the message it reads, and the bytes
of the new `ifaddrs_storage` it writes. The attribute loop counts down a `size_t` (`IFLA_PAYLOAD`,
`IFA_PAYLOAD` and `RTA_NEXT` wrap) and the model stops it after `fuel` attributes, so a trace is
what a prefix of the run does.

A link attribute is copied only when its payload fits, so an `RTM_NEWLINK` message never writes
outside the storage, and one whose length is a multiple of 4 and covers the `ifinfomsg` is read
only within its bytes. The address attributes are copied whatever their payload.
-/

set_option autoImplicit false
set_option relaxedAutoImplicit false

namespace Bionic.Netlink.Ifaddrs

/-! ## Constants and the layout of `ifaddrs_storage` -/

def afInet : ℕ := 2
def afInet6 : ℕ := 10
def afPacket : ℕ := 17
def rtmNewlink : ℕ := 16
def rtmNewaddr : ℕ := 20
def iflaAddress : ℕ := 1
def iflaBroadcast : ℕ := 2
def iflaIfname : ℕ := 3
def ifaAddress : ℕ := 1
def ifaLocal : ℕ := 2
def ifaLabel : ℕ := 3
def ifaBroadcast : ℕ := 4
def iffBroadcast : ℕ := 2

/-- `sizeof(void*)`. -/
def ptrSize (lp64 : Bool) : ℕ := if lp64 then 8 else 4

/-- The width of `size_t` in bits. -/
def sizeBits (lp64 : Bool) : ℕ := if lp64 then 64 else 32

/-- The fixed-size fields the callback sets: those of `ifa`, then `interface_index`. -/
inductive Field where
  | ifaNext
  | ifaName
  | ifaFlags
  | ifaAddr
  | ifaNetmask
  | ifaIfu
  | interfaceIndex
  deriving DecidableEq, Repr

/-- `ifaddrs` is seven pointer-sized slots (`unsigned int ifa_flags` padded to one), then comes
`int interface_index`. -/
def Field.offset (lp64 : Bool) : Field → ℕ
  | .ifaNext => 0
  | .ifaName => ptrSize lp64
  | .ifaFlags => 2 * ptrSize lp64
  | .ifaAddr => 3 * ptrSize lp64
  | .ifaNetmask => 4 * ptrSize lp64
  | .ifaIfu => 5 * ptrSize lp64
  | .interfaceIndex => 7 * ptrSize lp64

def Field.size (lp64 : Bool) : Field → ℕ
  | .ifaFlags | .interfaceIndex => 4
  | _ => ptrSize lp64

/-- The three `sockaddr_storage` fields. -/
inductive Sockaddr where
  | addr
  | netmask
  | ifaIfu
  deriving DecidableEq, Repr

/-- Each 128 bytes, aligned as a pointer, after `interface_index`. -/
def Sockaddr.offset (lp64 : Bool) : Sockaddr → ℕ
  | .addr => 8 * ptrSize lp64
  | .netmask => 8 * ptrSize lp64 + 128
  | .ifaIfu => 8 * ptrSize lp64 + 256

/-- `offsetof(ifaddrs_storage, name)`. -/
def nameOffset (lp64 : Bool) : ℕ := 8 * ptrSize lp64 + 384

/-- `sizeof(ifaddrs_storage)`: `char name[IFNAMSIZ + 1]`, then padding to a pointer. -/
def storageSize (lp64 : Bool) : ℕ := nameOffset lp64 + 17 + (ptrSize lp64 - 1)

/-! ## Accesses -/

/-- One access of the callback. -/
inductive Access where
  /-- `len` bytes of the message, `off` bytes after its `nlmsghdr`. -/
  | read (off len : ℕ)
  /-- `len` bytes of the new `ifaddrs_storage`, `off` bytes after its start. -/
  | write (off len : ℕ)
  /-- `len` bytes through the null pointer `SockaddrBytes` returns for another family. -/
  | writeNull (len : ℕ)
  deriving DecidableEq, Repr

/-- The store to a fixed field. -/
def Access.field (lp64 : Bool) (f : Field) : Access := .write (f.offset lp64) (f.size lp64)

/-- A write that stays in the `ifaddrs_storage` (a read is not a write). -/
def Access.WriteWithin (lp64 : Bool) : Access → Prop
  | .read _ _ => True
  | .write off len => off + len ≤ storageSize lp64
  | .writeNull _ => False

/-- A read that stays in the first `msgLen` bytes from the `nlmsghdr` (a write is not a read). -/
def Access.ReadWithin (msgLen : ℕ) : Access → Prop
  | .read off len => off + len ≤ msgLen
  | _ => True

instance (lp64 : Bool) (a : Access) : Decidable (a.WriteWithin lp64) :=
  match a with
  | .read _ _ => inferInstanceAs (Decidable True)
  | .write off len => inferInstanceAs (Decidable (off + len ≤ storageSize lp64))
  | .writeNull _ => inferInstanceAs (Decidable False)

instance (msgLen : ℕ) (a : Access) : Decidable (a.ReadWithin msgLen) :=
  match a with
  | .read off len => inferInstanceAs (Decidable (off + len ≤ msgLen))
  | .write _ _ => inferInstanceAs (Decidable True)
  | .writeNull _ => inferInstanceAs (Decidable True)

/-! ## `name` and the storage -/

/-- `char name[IFNAMSIZ + 1]`: 17 bytes, the last of them a NUL, which no copy into it reaches. -/
structure Name where
  bytes : List UInt8
  length_eq : bytes.length = 17
  last_eq : bytes[16]? = some 0

/-- The zeroed `name` of a new storage. -/
def Name.zero : Name := ⟨List.replicate 17 0, by simp, by simp⟩

/-- `strlen(name)`. -/
def Name.strlen (n : Name) : ℕ := (n.bytes.takeWhile (· ≠ 0)).length

theorem Name.strlen_le (n : Name) : n.strlen ≤ 16 := by
  have hpre := List.takeWhile_prefix (l := n.bytes) (p := fun x : UInt8 ↦ decide (x ≠ 0))
  by_contra h
  have hlen : (n.bytes.takeWhile (· ≠ 0)).length = n.bytes.length := by
    have := hpre.length_le
    rw [Name.strlen] at h
    rw [n.length_eq] at this ⊢
    omega
  -- a `strlen` of 17 would take the NUL at `name[16]`
  have hmem : (0 : UInt8) ∈ n.bytes.takeWhile (· ≠ 0) := by
    rw [hpre.eq_of_length hlen]
    exact List.mem_of_getElem? n.last_eq
  simpa using List.mem_takeWhile_imp hmem

/-- `memcpy(name, src, src.size())` for fewer than 17 bytes. -/
def Name.copy (n : Name) (src : List UInt8) (h : src.length < 17) : Name where
  bytes := src ++ n.bytes.drop src.length
  length_eq := by simp [n.length_eq]; omega
  last_eq := by
    rw [List.getElem?_append_right (by omega), List.getElem?_drop,
      show src.length + (16 - src.length) = 16 by omega]
    exact n.last_eq

theorem Name.strcpy_length_eq (dst src : Name) :
    (src.bytes.take (src.strlen + 1) ++ dst.bytes.drop (src.strlen + 1)).length = 17 := by
  have := src.strlen_le
  simp [src.length_eq, dst.length_eq]
  omega

theorem Name.strcpy_last_eq (dst src : Name) :
    (src.bytes.take (src.strlen + 1) ++ dst.bytes.drop (src.strlen + 1))[16]? = some 0 := by
  have hle := src.strlen_le
  have htake : (src.bytes.take (src.strlen + 1)).length = src.strlen + 1 := by
    simp [src.length_eq]
    omega
  by_cases h16 : src.strlen = 16
  · rw [List.getElem?_append_left (by omega), List.getElem?_take_of_lt (by omega)]
    exact src.last_eq
  · rw [List.getElem?_append_right (by omega), List.getElem?_drop, htake,
      show src.strlen + 1 + (16 - (src.strlen + 1)) = 16 by omega]
    exact dst.last_eq

/-- `strcpy(dst, src)`: the bytes of `src` up to its NUL, the NUL included. -/
def Name.strcpy (dst src : Name) : Name where
  bytes := src.bytes.take (src.strlen + 1) ++ dst.bytes.drop (src.strlen + 1)
  length_eq := Name.strcpy_length_eq dst src
  last_eq := Name.strcpy_last_eq dst src

/-- The fields of an `ifaddrs_storage` that later steps read back. -/
structure Storage where
  interfaceIndex : ℕ
  flags : ℕ
  /-- `ifa.ifa_addr != nullptr`. -/
  hasAddr : Bool
  name : Name

/-- `memset(this, 0, sizeof(*this))`. -/
def Storage.new : Storage := ⟨0, 0, false, Name.zero⟩

/-! ## The member functions of `ifaddrs_storage` -/

section Members

-- the bytes from the `nlmsghdr` on: the message, and what follows it in memory
variable (mem : ℕ → UInt8) (lp64 : Bool)

/-- A little-endian `uint16_t`. -/
def u16 (off : ℕ) : ℕ := (mem off).toNat + 256 * (mem (off + 1)).toNat

/-- A little-endian `uint32_t`. -/
def u32 (off : ℕ) : ℕ := u16 mem off + 65536 * u16 mem (off + 2)

theorem u16_lt (off : ℕ) : u16 mem off < 2 ^ 16 := by
  have h₀ := (mem off).toNat_lt
  have h₁ := (mem (off + 1)).toNat_lt
  simp only [u16] at *
  omega

theorem u32_lt (off : ℕ) : u32 mem off < 2 ^ 32 := by
  have h₀ := u16_lt mem off
  have h₁ := u16_lt mem (off + 2)
  simp only [u32] at *
  omega

/-- The `len` bytes at `off`. -/
def bytes (off len : ℕ) : List UInt8 := (List.range len).map fun i ↦ mem (off + i)

theorem length_bytes (off len : ℕ) : (bytes mem off len).length = len := by simp [bytes]

/-- `SockaddrBytes(family, ss)`: where the address starts in the `sockaddr` of `family`
(`sin_addr`, `sin6_addr`, `sll_addr`); `none` is its null pointer. -/
def sockaddrBytes (family : ℕ) : Option ℕ :=
  if family = afInet then some 4
  else if family = afInet6 then some 8
  else if family = afPacket then some 12
  else none

/-- `IN6_IS_ADDR_LINKLOCAL(data) || IN6_IS_ADDR_MC_LINKLOCAL(data)`, and the bytes it reads: the
second only after a first `0xfe` or `0xff`. -/
def in6LinkLocal (data : ℕ) : Bool × List Access :=
  if mem data = 0xfe then (mem (data + 1) &&& 0xc0 = 0x80, [.read data 1, .read (data + 1) 1])
  else if mem data = 0xff then (mem (data + 1) &&& 0x0f = 0x02, [.read data 1, .read (data + 1) 1])
  else (false, [.read data 1])

/-- `CopyAddress(family, data, byteCount, ss)`: `ss_family`, the `memcpy` from the message, and
`sin6_scope_id` for a link-local IPv6 address. -/
def copyAddress (family data byteCount : ℕ) (ss : Sockaddr) : List Access :=
  let base := ss.offset lp64
  let copy := match sockaddrBytes family with
    | some off => [.write (base + off) byteCount]
    | none => [.writeNull byteCount]
  let scope :=
    if family = afInet6 then
      (in6LinkLocal mem data).2 ++ if (in6LinkLocal mem data).1 then [.write (base + 24) 4] else []
    else []
  .write base 2 :: .read data byteCount :: copy ++ scope

/-- `SetAddress`: the local address, or the destination once `ifa_addr` is set. -/
def setAddress (s : Storage) (family data byteCount : ℕ) : Storage × List Access :=
  if s.hasAddr then (s, copyAddress mem lp64 family data byteCount .ifaIfu ++ [.field lp64 .ifaIfu])
  else
    ({ s with hasAddr := true },
      copyAddress mem lp64 family data byteCount .addr ++ [.field lp64 .ifaAddr])

/-- `SetBroadcastAddress`. -/
def setBroadcastAddress (family data byteCount : ℕ) : List Access :=
  copyAddress mem lp64 family data byteCount .ifaIfu ++ [.field lp64 .ifaIfu]

/-- `SetLocalAddress`: a set `ifa_addr` moves to `ifa_ifu` first. -/
def setLocalAddress (s : Storage) (family data byteCount : ℕ) : Storage × List Access :=
  let moved := if s.hasAddr then [.write (Sockaddr.ifaIfu.offset lp64) 128, .field lp64 .ifaIfu]
    else []
  ({ s with hasAddr := true },
    moved ++ copyAddress mem lp64 family data byteCount .addr ++ [.field lp64 .ifaAddr])

/-- `SetNetmask(family, prefix_length)`: `prefix_length / 8` bytes of `0xff` and one partial byte. -/
def setNetmask (family prefixLength : ℕ) : List Access :=
  let base := Sockaddr.netmask.offset lp64
  let fill := match sockaddrBytes family with
    | some off => .write (base + off) (prefixLength / 8) ::
        if prefixLength % 8 ≠ 0 then [.write (base + off + prefixLength / 8) 1] else []
    | none => .writeNull (prefixLength / 8) :: if prefixLength % 8 ≠ 0 then [.writeNull 1] else []
  .write base 2 :: fill ++ [.field lp64 .ifaNetmask]

/-- `SetPacketAttributes(ifi->ifi_index, ifi->ifi_type, halen)`: the arguments read from the
`ifinfomsg`, stored into the `sockaddr_ll` in `addr`. -/
def setPacketAttributes : List Access :=
  let base := Sockaddr.addr.offset lp64
  [.read 20 4, .read 18 2, .write (base + 4) 4, .write (base + 8) 2, .write (base + 11) 1]

/-- `memcpy(new_addr->name, RTA_DATA(rta), RTA_PAYLOAD(rta))` under its check. -/
def copyName (s : Storage) (data payload : ℕ) : Storage × List Access :=
  if h : payload < 17 then
    ({ s with name := s.name.copy (bytes mem data payload) (by rw [length_bytes]; exact h) },
      [.read data payload, .write (nameOffset lp64) payload, .field lp64 .ifaName])
  else (s, [])

end Members

/-! ## The callback -/

section Callback

variable (mem : ℕ → UInt8) (lp64 : Bool)

/-- One attribute of an `RTM_NEWLINK` message, by type, data offset and payload. -/
def linkAttr (s : Storage) (type data payload : ℕ) : Storage × List Access :=
  if type = iflaAddress then
    if payload < 128 then
      ((setAddress mem lp64 s afPacket data payload).1,
        (setAddress mem lp64 s afPacket data payload).2 ++ setPacketAttributes lp64)
    else (s, [])
  else if type = iflaBroadcast then
    if payload < 128 then
      (s, setBroadcastAddress mem lp64 afPacket data payload ++ setPacketAttributes lp64)
    else (s, [])
  else if type = iflaIfname then copyName mem lp64 s data payload
  else (s, [])

/-- One attribute of an `RTM_NEWADDR` message; `known` says an earlier `RTM_NEWLINK` message gave
the interface. No address attribute has its payload checked. -/
def addrAttr (known : Bool) (s : Storage) (type data payload : ℕ) : Storage × List Access :=
  let family := (mem 16).toNat
  if type = ifaAddress then
    if family = afInet ∨ family = afInet6 then
      ((setAddress mem lp64 s family data payload).1,
        .read 16 1 :: (setAddress mem lp64 s family data payload).2 ++
          .read 17 1 :: setNetmask lp64 family (mem 17).toNat)
    else (s, [.read 16 1])
  else if type = ifaBroadcast then
    if family = afInet then
      (if known then s else { s with flags := s.flags ||| iffBroadcast },
        .read 16 1 :: setBroadcastAddress mem lp64 family data payload ++
          if known then [] else [.field lp64 .ifaFlags])
    else (s, [.read 16 1])
  else if type = ifaLocal then
    if family = afInet ∨ family = afInet6 then
      ((setLocalAddress mem lp64 s family data payload).1,
        .read 16 1 :: (setLocalAddress mem lp64 s family data payload).2)
    else (s, [.read 16 1])
  else if type = ifaLabel then copyName mem lp64 s data payload
  else (s, [])

/-- `RTA_ALIGN`. -/
def rtaAlign (len : ℕ) : ℕ := (len + 3) / 4 * 4

/-- `while (RTA_OK(rta, rta_len)) { ...; rta = RTA_NEXT(rta, rta_len); }` for at most `fuel`
attributes: `rta` is an offset in the message and `len` the `size_t` of `w` bits it counts down;
`body` gets the type, the offset of `RTA_DATA` and `RTA_PAYLOAD`. -/
def attrLoop (w : ℕ) (body : Storage → ℕ → ℕ → ℕ → Storage × List Access) :
    ℕ → Storage → ℕ → ℕ → Storage × List Access
  | 0, s, _, _ => (s, [])
  | fuel + 1, s, rta, len =>
    if len < 4 then (s, [])
    else if u16 mem rta < 4 ∨ len < u16 mem rta then (s, [.read rta 2])
    else
      let step := body s (u16 mem (rta + 2)) (rta + 4) (u16 mem rta - 4)
      let rest := attrLoop w body fuel step.1 (rta + rtaAlign (u16 mem rta))
        ((len + 2 ^ w - rtaAlign (u16 mem rta)) % 2 ^ w)
      (rest.1, .read rta 2 :: .read (rta + 2) 2 :: step.2 ++ rest.2)

/-- `__getifaddrs_callback(out, hdr)` with at most `fuel` attributes: the new list and the accesses
made. The new storage goes to the front of the list. -/
def getifaddrsCallback (fuel : ℕ) (out : List Storage) : List Storage × List Access :=
  -- `new ifaddrs_storage(out)`: the `memset` and the push onto the list
  let created := [.write 0 (storageSize lp64), .field lp64 .ifaNext]
  let w := sizeBits lp64
  if u16 mem 4 = rtmNewlink then
    let s : Storage := { Storage.new with interfaceIndex := u32 mem 20, flags := u32 mem 24 }
    -- `IFLA_RTA(ifi)` and `IFLA_PAYLOAD(hdr)`
    let loop := attrLoop mem w (linkAttr mem lp64) fuel s 32 ((u32 mem 0 + 2 ^ w - 32) % 2 ^ w)
    (loop.1 :: out, .read 4 2 :: created ++ .read 20 4 :: .field lp64 .interfaceIndex ::
      .read 24 4 :: .field lp64 .ifaFlags :: .read 0 4 :: loop.2)
  else if u16 mem 4 = rtmNewaddr then
    let known := out.find? fun k ↦ k.interfaceIndex = u32 mem 20
    let s : Storage := { Storage.new with interfaceIndex := u32 mem 20 }
    let copied : Storage × List Access := match known with
      | some k => ({ s with name := s.name.strcpy k.name, flags := k.flags },
          [.write (nameOffset lp64) (k.name.strlen + 1), .field lp64 .ifaName,
            .field lp64 .ifaFlags])
      | none => (s, [])
    -- `IFA_RTA(msg)` and `IFA_PAYLOAD(hdr)`
    let loop := attrLoop mem w (addrAttr mem lp64 known.isSome) fuel copied.1 24
      ((u32 mem 0 + 2 ^ w - 24) % 2 ^ w)
    (loop.1 :: out, .read 4 2 :: .read 20 4 :: created ++ .field lp64 .interfaceIndex ::
      copied.2 ++ .read 0 4 :: loop.2)
  else (out, [.read 4 2])

end Callback

/-! ## The attribute loop -/

section Loop

variable (mem : ℕ → UInt8) (w : ℕ) (body : Storage → ℕ → ℕ → ℕ → Storage × List Access)

theorem attrLoop_of_ok {fuel : ℕ} {s : Storage} {rta len : ℕ} (hlen : 4 ≤ len)
    (hlo : 4 ≤ u16 mem rta) (hhi : u16 mem rta ≤ len) :
    attrLoop mem w body (fuel + 1) s rta len =
      ((attrLoop mem w body fuel (body s (u16 mem (rta + 2)) (rta + 4) (u16 mem rta - 4)).1
          (rta + rtaAlign (u16 mem rta)) ((len + 2 ^ w - rtaAlign (u16 mem rta)) % 2 ^ w)).1,
        .read rta 2 :: .read (rta + 2) 2 ::
          (body s (u16 mem (rta + 2)) (rta + 4) (u16 mem rta - 4)).2 ++
          (attrLoop mem w body fuel (body s (u16 mem (rta + 2)) (rta + 4) (u16 mem rta - 4)).1
            (rta + rtaAlign (u16 mem rta)) ((len + 2 ^ w - rtaAlign (u16 mem rta)) % 2 ^ w)).2) := by
  rw [attrLoop, if_neg (by omega), if_neg (by omega)]

/-- The rule for the loop: an invariant of `rta` and `len` that every attribute `RTA_OK` accepts
keeps, under which every access of one pass has the property `P`, gives `P` for every access of a
run. -/
theorem forall_attrLoop (Inv : ℕ → ℕ → Prop) (P : Access → Prop)
    (hhead : ∀ rta len, Inv rta len → 4 ≤ len → P (.read rta 2))
    (hstep : ∀ s rta len, Inv rta len → 4 ≤ len → 4 ≤ u16 mem rta → u16 mem rta ≤ len →
      P (.read (rta + 2) 2) ∧
        (∀ a ∈ (body s (u16 mem (rta + 2)) (rta + 4) (u16 mem rta - 4)).2, P a) ∧
        Inv (rta + rtaAlign (u16 mem rta)) ((len + 2 ^ w - rtaAlign (u16 mem rta)) % 2 ^ w)) :
    ∀ fuel s rta len, Inv rta len → ∀ a ∈ (attrLoop mem w body fuel s rta len).2, P a := by
  intro fuel
  induction fuel with
  | zero => simp [attrLoop]
  | succ fuel ih =>
    intro s rta len hinv a ha
    by_cases hlen : len < 4
    · simp [attrLoop, hlen] at ha
    by_cases hbad : u16 mem rta < 4 ∨ len < u16 mem rta
    · rw [attrLoop, if_neg hlen, if_pos hbad, List.mem_singleton] at ha
      subst ha
      exact hhead rta len hinv (by omega)
    · rw [attrLoop_of_ok mem w body (by omega) (by omega) (by omega)] at ha
      obtain ⟨htype, hbody, hinv'⟩ := hstep s rta len hinv (by omega) (by omega) (by omega)
      simp only [List.mem_cons, List.mem_append] at ha
      rcases ha with (rfl | rfl | hb) | hr
      · exact hhead rta len hinv (by omega)
      · exact htype
      · exact hbody a hb
      · exact ih _ _ _ hinv' a hr

end Loop

/-! ## Writes within the storage -/

section Writes

variable (mem : ℕ → UInt8) (lp64 : Bool)

@[simp]
theorem writeWithin_read (off len : ℕ) : (Access.read off len).WriteWithin lp64 := trivial

@[simp]
theorem writeWithin_write (off len : ℕ) :
    (Access.write off len).WriteWithin lp64 ↔ off + len ≤ storageSize lp64 := Iff.rfl

@[simp]
theorem writeWithin_field (f : Field) : (Access.field lp64 f).WriteWithin lp64 := by
  cases f <;> cases lp64 <;> decide

theorem Sockaddr.offset_add_le (ss : Sockaddr) : ss.offset lp64 + 144 ≤ storageSize lp64 := by
  cases ss <;> cases lp64 <;> decide

theorem nameOffset_add_le : nameOffset lp64 + 17 ≤ storageSize lp64 := by
  cases lp64 <;> decide

theorem in6LinkLocal_reads (data : ℕ) :
    ∀ a ∈ (in6LinkLocal mem data).2, a = .read data 1 ∨ a = .read (data + 1) 1 := by
  intro a ha
  simp only [in6LinkLocal] at ha
  split_ifs at ha <;> simp_all

/-- `CopyAddress` for a family `SockaddrBytes` knows writes within the storage as long as the
address ends within 144 bytes of the `sockaddr_storage`. -/
theorem copyAddress_writes_within {family off byteCount : ℕ} (data : ℕ) (ss : Sockaddr)
    (hfam : sockaddrBytes family = some off) (hfit : off + byteCount ≤ 144) :
    ∀ a ∈ copyAddress mem lp64 family data byteCount ss, a.WriteWithin lp64 := by
  have hss := ss.offset_add_le lp64
  have hreads : ∀ a ∈ (in6LinkLocal mem data).2, a.WriteWithin lp64 := fun a ha ↦ by
    rcases in6LinkLocal_reads mem data a ha with rfl | rfl <;> trivial
  simp only [copyAddress, hfam, List.forall_mem_cons, List.forall_mem_append, writeWithin_write,
    writeWithin_read, List.not_mem_nil, IsEmpty.forall_iff, implies_true, and_true, true_and]
  refine ⟨⟨by omega, by omega⟩, ?_⟩
  -- the scope id of a link-local IPv6 address
  split_ifs
  · exact List.forall_mem_append.2 ⟨hreads, by simp; omega⟩
  · simpa using hreads
  · simp

theorem setAddress_writes_within {family off byteCount : ℕ} (s : Storage) (data : ℕ)
    (hfam : sockaddrBytes family = some off) (hfit : off + byteCount ≤ 144) :
    ∀ a ∈ (setAddress mem lp64 s family data byteCount).2, a.WriteWithin lp64 := by
  unfold setAddress
  split_ifs
  all_goals
    exact List.forall_mem_append.2 ⟨copyAddress_writes_within mem lp64 data _ hfam hfit, by simp⟩

theorem setBroadcastAddress_writes_within {family off byteCount : ℕ} (data : ℕ)
    (hfam : sockaddrBytes family = some off) (hfit : off + byteCount ≤ 144) :
    ∀ a ∈ setBroadcastAddress mem lp64 family data byteCount, a.WriteWithin lp64 :=
  List.forall_mem_append.2 ⟨copyAddress_writes_within mem lp64 data _ hfam hfit, by simp⟩

theorem setLocalAddress_writes_within {family off byteCount : ℕ} (s : Storage) (data : ℕ)
    (hfam : sockaddrBytes family = some off) (hfit : off + byteCount ≤ 144) :
    ∀ a ∈ (setLocalAddress mem lp64 s family data byteCount).2, a.WriteWithin lp64 := by
  have hifu := Sockaddr.ifaIfu.offset_add_le lp64
  -- the move of a set `ifa_addr` to `ifa_ifu`
  have hmoved : ∀ a ∈ (if s.hasAddr then [Access.write (Sockaddr.ifaIfu.offset lp64) 128,
      .field lp64 .ifaIfu] else []), a.WriteWithin lp64 := by
    split_ifs
    · simp
      omega
    · simp
  exact List.forall_mem_append.2 ⟨List.forall_mem_append.2
    ⟨hmoved, copyAddress_writes_within mem lp64 data _ hfam hfit⟩, by simp⟩

theorem setPacketAttributes_writes_within :
    ∀ a ∈ setPacketAttributes lp64, a.WriteWithin lp64 := by
  cases lp64 <;> decide

theorem setNetmask_writes_within {family off prefixLength : ℕ}
    (hfam : sockaddrBytes family = some off) (hoff : off ≤ 12) (hbyte : prefixLength < 256) :
    ∀ a ∈ setNetmask lp64 family prefixLength, a.WriteWithin lp64 := by
  have hnet := Sockaddr.netmask.offset_add_le lp64
  have hbytes : prefixLength / 8 < 32 := by omega
  simp only [setNetmask, hfam]
  split_ifs <;> simp <;> omega

theorem copyName_writes_within (s : Storage) (data payload : ℕ) :
    ∀ a ∈ (copyName mem lp64 s data payload).2, a.WriteWithin lp64 := by
  have hname := nameOffset_add_le lp64
  unfold copyName
  split_ifs
  · simp
    omega
  · simp

/-- Every attribute of an `RTM_NEWLINK` message is copied within the storage: each copy checks
its payload against its field. -/
theorem linkAttr_writes_within (s : Storage) (type data payload : ℕ) :
    ∀ a ∈ (linkAttr mem lp64 s type data payload).2, a.WriteWithin lp64 := by
  have hpacket : sockaddrBytes afPacket = some 12 := by decide
  unfold linkAttr
  split_ifs with haddr hfit hbroad hfit'
  · exact List.forall_mem_append.2 ⟨setAddress_writes_within mem lp64 s data hpacket (by omega),
      setPacketAttributes_writes_within lp64⟩
  · simp
  · exact List.forall_mem_append.2 ⟨setBroadcastAddress_writes_within mem lp64 data hpacket
      (by omega), setPacketAttributes_writes_within lp64⟩
  · simp
  · exact copyName_writes_within mem lp64 s data payload
  · simp

end Writes

/-! ## Reads within the message -/

section Reads

variable (mem : ℕ → UInt8) (lp64 : Bool) (msgLen : ℕ)

@[simp]
theorem readWithin_read (off len : ℕ) :
    (Access.read off len).ReadWithin msgLen ↔ off + len ≤ msgLen := Iff.rfl

@[simp]
theorem readWithin_write (off len : ℕ) : (Access.write off len).ReadWithin msgLen := trivial

@[simp]
theorem readWithin_field (f : Field) : (Access.field lp64 f).ReadWithin msgLen := trivial

@[simp]
theorem readWithin_writeNull (len : ℕ) : (Access.writeNull len).ReadWithin msgLen := trivial

theorem copyAddress_reads_within {family data byteCount : ℕ} (ss : Sockaddr)
    (hdata : data + byteCount ≤ msgLen) (hscope : family = afInet6 → data + 2 ≤ msgLen) :
    ∀ a ∈ copyAddress mem lp64 family data byteCount ss, a.ReadWithin msgLen := by
  intro a ha
  simp only [copyAddress, List.mem_append, List.mem_cons] at ha
  rcases ha with (rfl | rfl | hcopy) | hs
  · trivial
  · exact hdata
  · split at hcopy <;> simp_all
  -- the bytes an IPv6 scope check reads, and the scope id it writes
  · split_ifs at hs with h6 hll
    · have h2 := hscope h6
      rcases List.mem_append.1 hs with hread | hwrite
      · rcases in6LinkLocal_reads mem data a hread with rfl | rfl <;> simp <;> omega
      · rw [List.mem_singleton.1 hwrite]
        trivial
    · have h2 := hscope h6
      rcases in6LinkLocal_reads mem data a (by simpa using hs) with rfl | rfl <;> simp <;> omega
    · simp at hs

theorem setPacketAttributes_reads_within (h24 : 24 ≤ msgLen) :
    ∀ a ∈ setPacketAttributes lp64, a.ReadWithin msgLen := by
  simp [setPacketAttributes]
  omega

theorem copyName_reads_within (s : Storage) {data payload : ℕ} (hdata : data + payload ≤ msgLen) :
    ∀ a ∈ (copyName mem lp64 s data payload).2, a.ReadWithin msgLen := by
  unfold copyName
  split_ifs <;> simp [hdata]

theorem linkAttr_reads_within (s : Storage) (type : ℕ) {data payload : ℕ}
    (h24 : 24 ≤ msgLen) (hdata : data + payload ≤ msgLen) :
    ∀ a ∈ (linkAttr mem lp64 s type data payload).2, a.ReadWithin msgLen := by
  have hcopy : ∀ ss, ∀ a ∈ copyAddress mem lp64 afPacket data payload ss, a.ReadWithin msgLen :=
    fun ss ↦ copyAddress_reads_within mem lp64 msgLen ss hdata (fun h ↦ absurd h (by decide))
  unfold linkAttr
  split_ifs
  · refine List.forall_mem_append.2 ⟨?_, setPacketAttributes_reads_within lp64 msgLen h24⟩
    unfold setAddress
    split_ifs <;> exact List.forall_mem_append.2 ⟨hcopy _, by simp⟩
  · simp
  · exact List.forall_mem_append.2 ⟨List.forall_mem_append.2 ⟨hcopy _, by simp⟩,
      setPacketAttributes_reads_within lp64 msgLen h24⟩
  · simp
  · exact copyName_reads_within mem lp64 msgLen s hdata
  · simp

end Reads

section LoopReads

variable (mem : ℕ → UInt8) (w : ℕ) (body : Storage → ℕ → ℕ → ℕ → Storage × List Access)

theorem rtaNext_of_le {len rtaLen : ℕ} (hw : len < 2 ^ w) (hlen : len % 4 = 0)
    (hle : rtaLen ≤ len) :
    rtaAlign rtaLen ≤ len ∧ (len + 2 ^ w - rtaAlign rtaLen) % 2 ^ w = len - rtaAlign rtaLen := by
  have halign : rtaAlign rtaLen ≤ len := by
    simp only [rtaAlign]
    omega
  refine ⟨halign, ?_⟩
  rw [show len + 2 ^ w - rtaAlign rtaLen = len - rtaAlign rtaLen + 2 ^ w by omega,
    Nat.add_mod_right, Nat.mod_eq_of_lt (by omega)]

/-- In a message of `msgLen` bytes below `2 ^ w`, a loop started at an offset whose distance to
the end is a multiple of 4 reads only within the message when every pass of `body` reads only
within its attribute. -/
theorem attrLoop_reads_within (msgLen : ℕ) (hw : msgLen < 2 ^ w)
    (hbody : ∀ s rta, 4 ≤ u16 mem rta → rta + u16 mem rta ≤ msgLen →
      ∀ a ∈ (body s (u16 mem (rta + 2)) (rta + 4) (u16 mem rta - 4)).2, a.ReadWithin msgLen)
    (fuel : ℕ) (s : Storage) (rta : ℕ) (hrta : rta ≤ msgLen) (hlen : (msgLen - rta) % 4 = 0) :
    ∀ a ∈ (attrLoop mem w body fuel s rta (msgLen - rta)).2, a.ReadWithin msgLen := by
  -- the offset and the count add up to the end of the message, which the count keeps aligned
  refine forall_attrLoop mem w body (fun rta len ↦ rta + len = msgLen ∧ len % 4 = 0)
    (·.ReadWithin msgLen) (fun rta len hinv hlen ↦ ?_) (fun s rta len hinv hlen hlo hhi ↦ ?_)
    fuel s rta (msgLen - rta) ⟨by omega, hlen⟩
  · simp only [readWithin_read]
    omega
  · obtain ⟨halign, hnext⟩ := rtaNext_of_le w (by omega) hinv.2 hhi
    refine ⟨by simp only [readWithin_read]; omega, hbody s rta hlo (by omega), ?_⟩
    rw [hnext]
    have h4 : rtaAlign (u16 mem rta) % 4 = 0 := by
      simp only [rtaAlign]
      omega
    omega

end LoopReads

/-! ## The callback on one message -/

section Message

variable (mem : ℕ → UInt8) (lp64 : Bool)

theorem two_pow_sizeBits : 2 ^ 32 ≤ 2 ^ sizeBits lp64 :=
  Nat.pow_le_pow_right (by decide) (by cases lp64 <;> decide)

theorem payload_of_le {hdr : ℕ} (h : hdr ≤ u32 mem 0) :
    (u32 mem 0 + 2 ^ sizeBits lp64 - hdr) % 2 ^ sizeBits lp64 = u32 mem 0 - hdr := by
  have hM := u32_lt mem 0
  have hw := two_pow_sizeBits lp64
  rw [show u32 mem 0 + 2 ^ sizeBits lp64 - hdr = u32 mem 0 - hdr + 2 ^ sizeBits lp64 by omega,
    Nat.add_mod_right, Nat.mod_eq_of_lt (by omega)]

/-- An `RTM_NEWLINK` message: the callback writes only within the new storage, and reads only
within the message when its length covers the `ifinfomsg` and is a multiple of 4. -/
theorem getifaddrsCallback_newlink_within (fuel : ℕ) (out : List Storage)
    (htype : u16 mem 4 = rtmNewlink) :
    (∀ a ∈ (getifaddrsCallback mem lp64 fuel out).2, a.WriteWithin lp64) ∧
      (32 ≤ u32 mem 0 → u32 mem 0 % 4 = 0 →
        ∀ a ∈ (getifaddrsCallback mem lp64 fuel out).2, a.ReadWithin (u32 mem 0)) := by
  have hwrites := forall_attrLoop mem (sizeBits lp64) (linkAttr mem lp64) (fun _ _ ↦ True)
    (·.WriteWithin lp64) (fun _ _ _ _ ↦ trivial)
    (fun s _ _ _ _ _ _ ↦ ⟨trivial, linkAttr_writes_within mem lp64 s _ _ _, trivial⟩)
  rw [getifaddrsCallback, if_pos htype]
  refine ⟨?_, fun h32 halign ↦ ?_⟩
  · simp only [List.forall_mem_cons, List.forall_mem_append, writeWithin_read, writeWithin_write,
      writeWithin_field, List.not_mem_nil, IsEmpty.forall_iff, implies_true, and_true, true_and]
    exact ⟨by omega, hwrites _ _ _ _ trivial⟩
  · have hM := u32_lt mem 0
    have hloop := attrLoop_reads_within mem (sizeBits lp64) (linkAttr mem lp64) (u32 mem 0)
      (by have := two_pow_sizeBits lp64; omega)
      (fun s rta hlo hhi ↦ linkAttr_reads_within mem lp64 (u32 mem 0) s _ (by omega) (by omega))
      fuel { Storage.new with interfaceIndex := u32 mem 20, flags := u32 mem 24 } 32 h32 (by omega)
    rw [payload_of_le mem lp64 h32]
    simp only [List.forall_mem_cons, List.forall_mem_append, readWithin_read, readWithin_write,
      readWithin_field, List.not_mem_nil, IsEmpty.forall_iff, implies_true, and_true, true_and]
    exact ⟨by omega, by omega, by omega, by omega, hloop⟩

/-- An `RTM_NEWLINK` message of 40 bytes: the header, an `ifinfomsg` and an `IFLA_IFNAME` of
`"lo"`. -/
def loLink : ℕ → UInt8
  | 0 => 40
  | 4 => 16
  | 32 => 7
  | 34 => 3
  | 36 => 0x6c
  | 37 => 0x6f
  | _ => 0

theorem getifaddrsCallback_newlink_within_lo :
    (∀ a ∈ (getifaddrsCallback loLink true 1 []).2, a.WriteWithin true) ∧
      (32 ≤ u32 loLink 0 → u32 loLink 0 % 4 = 0 →
        ∀ a ∈ (getifaddrsCallback loLink true 1 []).2, a.ReadWithin (u32 loLink 0)) :=
  getifaddrsCallback_newlink_within loLink true 1 [] (by decide)

example : (getifaddrsCallback loLink true 2 []).1.map (·.name.bytes.take 3) = [[0x6c, 0x6f, 0]] := by
  decide

/-- An `IFA_ADDRESS` of an `AF_INET` message, before any address is set, is copied into `addr`
after `sin_family` and `sin_port`, all of its payload. -/
theorem addrAttr_address_copy (known : Bool) {s : Storage} (data payload : ℕ)
    (hfamily : (mem 16).toNat = afInet) (hs : s.hasAddr = false) :
    .write (Sockaddr.addr.offset lp64 + 4) payload ∈
      (addrAttr mem lp64 known s ifaAddress data payload).2 := by
  have hinet : sockaddrBytes afInet = some 4 := by decide
  simp [addrAttr, hfamily, setAddress, hs, copyAddress, hinet]

/-- An `RTM_NEWADDR` message of the `AF_INET` family whose first attribute is an `IFA_ADDRESS`
longer than the room after `sin_addr`: the callback copies it past the end of the storage. -/
theorem getifaddrsCallback_writes_past_storage (fuel : ℕ) (out : List Storage)
    (htype : u16 mem 4 = rtmNewaddr) (hfamily : (mem 16).toNat = afInet)
    (hattr : u16 mem 26 = ifaAddress) (hrta : 4 ≤ u16 mem 24) (hfits : 24 + u16 mem 24 ≤ u32 mem 0)
    (hbig : storageSize lp64 < Sockaddr.addr.offset lp64 + u16 mem 24) :
    ∃ a ∈ (getifaddrsCallback mem lp64 (fuel + 1) out).2, ¬a.WriteWithin lp64 := by
  refine ⟨.write (Sockaddr.addr.offset lp64 + 4) (u16 mem 24 - 4), ?_, by simp; omega⟩
  have htype' : u16 mem 4 ≠ rtmNewlink := by
    rw [htype]
    decide
  have hattr' : u16 mem (24 + 2) = ifaAddress := hattr
  rw [getifaddrsCallback, if_neg htype', if_pos htype, payload_of_le mem lp64 (by omega)]
  dsimp only
  rw [attrLoop_of_ok mem _ _ (by omega) hrta (by omega), hattr']
  apply List.mem_append_right
  apply List.mem_cons_of_mem
  apply List.mem_append_left
  apply List.mem_cons_of_mem
  apply List.mem_cons_of_mem
  -- the storage the loop starts from has no address yet, whether or not the interface was known
  apply addrAttr_address_copy mem lp64 _ _ _ hfamily
  split <;> rfl

/-- An `RTM_NEWADDR` message of 1028 bytes for `AF_INET` whose `IFA_ADDRESS` carries 1000 bytes. -/
def overlongAddress : ℕ → UInt8
  | 0 => 0x04
  | 1 => 0x04
  | 4 => 20
  | 16 => 2
  | 17 => 24
  | 20 => 1
  | 24 => 0xec
  | 25 => 0x03
  | 26 => 1
  | _ => 0

theorem getifaddrsCallback_writes_past_storage_overlong :
    ∃ a ∈ (getifaddrsCallback overlongAddress true (0 + 1) []).2, ¬a.WriteWithin true :=
  getifaddrsCallback_writes_past_storage overlongAddress true 0 [] (by decide) (by decide)
    (by decide) (by decide) (by decide) (by decide)

end Message

end Bionic.Netlink.Ifaddrs
