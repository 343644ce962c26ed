import Mathlib.Data.UInt
import Mathlib.Data.List.Basic

/-!
# DNS query packets in the resolver cache

The resolver cache (`res_cache.c`) keys its entries by the query packet: `_dnsPacket_checkQuery`
accepts the queries it caches, `_dnsPacket_hashQuery` is the key's FNV hash and
`_dnsPacket_isEqualQuery` the key's equality. A packet is its list of bytes, and a cursor into it
is the list of the bytes from the cursor on.

`_dnsPacket_hashBytes` never decrements `numBytes`, so its loop hashes every byte up to the end of
the packet. Called for the second header byte, it leaves nothing for the rest of
`_dnsPacket_hashQuery`, whose hash is the FNV hash of the RD bit and of every byte from the third
on (`hashQuery_eq`). `_dnsPacket_isEqualQuery` compares only the header and the records. So a
checked query with bytes after its question records equals, under `_dnsPacket_isEqualQuery`, each
query that differs from it only in its last byte, while their hashes differ
(`isEqualQuery_append_singleton`, `hashQuery_append_singleton_ne`).
-/

set_option autoImplicit false
set_option relaxedAutoImplicit false

namespace Bionic.Dns.Packet

/-- `DNS_HEADER_SIZE`. -/
def dnsHeaderSize : ℕ := 12

def dnsTypeA : List UInt8 := [0, 1]

def dnsTypePtr : List UInt8 := [0, 12]

def dnsTypeMx : List UInt8 := [0, 15]

def dnsTypeAaaa : List UInt8 := [0, 28]

def dnsTypeAll : List UInt8 := [0, 255]

def dnsClassIn : List UInt8 := [0, 1]

/-! ## Reading a packet -/

/-- `_dnsPacket_skip`: the cursor moves by `count`, at most to the end. -/
def skip (count : ℕ) (cur : List UInt8) : List UInt8 := cur.drop count

/-- `_dnsPacket_readInt16`: the big-endian 16-bit number at the cursor, `-1` when fewer than two
bytes are left. -/
def readInt16 : List UInt8 → ℤ × List UInt8
  | b0 :: b1 :: rest => ((b0.toNat <<< 8 ||| b1.toNat : ℕ), rest)
  | cur => (-1, cur)

/-- `_dnsPacket_checkBytes`: the cursor moves past `bytes` when they come next. -/
def checkBytes (bytes cur : List UInt8) : Option (List UInt8) :=
  if bytes.isPrefixOf cur then some (cur.drop bytes.length) else none

/-- The loop of `_dnsPacket_checkQName`, where `skip` is the number of bytes of the current label
still to pass (`p += c`). The name ends at a zero byte. A length of 64 or more (a compression
pointer), or running out of bytes, is malformed. -/
def checkQNameFrom : ℕ → List UInt8 → Option (List UInt8)
  | _, [] => none
  | 0, c :: rest => if c = 0 then some rest else if 64 ≤ c then none else checkQNameFrom c.toNat rest
  | skip + 1, _ :: rest => checkQNameFrom skip rest

/-- `_dnsPacket_checkQName`. -/
def checkQName (cur : List UInt8) : Option (List UInt8) := checkQNameFrom 0 cur

/-- `_dnsPacket_checkQR`: a name, a supported TYPE, and CLASS IN. -/
def checkQR (cur : List UInt8) : Option (List UInt8) := do
  let cur ← checkQName cur
  let cur ← checkBytes dnsTypeA cur <|> checkBytes dnsTypePtr cur <|> checkBytes dnsTypeMx cur <|>
    checkBytes dnsTypeAaaa cur <|> checkBytes dnsTypeAll cur
  checkBytes dnsClassIn cur

/-- The loop of `_dnsPacket_checkQuery` over `QDCOUNT` question records. -/
def checkQRs : ℕ → List UInt8 → Option (List UInt8)
  | 0, cur => some cur
  | n + 1, cur => (checkQR cur).bind (checkQRs n)

/-- The big-endian 16-bit number at byte `i` of a packet, `(p[i] << 8) | p[i+1]`. -/
def be16 (q : List UInt8) (i : ℕ) : ℕ := (q.getD i 0).toNat <<< 8 ||| (q.getD (i + 1) 0).toNat

/-- `_dnsPacket_checkQuery`: a header of a plain query (QR, opcode, AA, RA, Z and RCODE zero), no
answer or authority records, at most one additional record, which is not checked, and `QDCOUNT`
well-formed question records, which are. -/
def checkQuery (q : List UInt8) : Bool :=
  if q.length < dnsHeaderSize then false
  else if q.getD 2 0 &&& 0xFC ≠ 0 ∨ q.getD 3 0 &&& 0xCF ≠ 0 then false
  else if be16 q 6 ≠ 0 ∨ be16 q 8 ≠ 0 ∨ 1 < be16 q 10 then false
  else if be16 q 4 = 0 then false
  else (checkQRs (be16 q 4) (q.drop dnsHeaderSize)).isSome

/-! ## The hash -/

def fnvMult : UInt32 := 16777619

def fnvBasis : UInt32 := 2166136261

/-- One step of the 32-bit FNV hash. -/
def fnvStep (hash : UInt32) (b : UInt8) : UInt32 := hash * fnvMult ^^^ b.toUInt32

/-- `_dnsPacket_hashBytes`. Its loop never decrements `numBytes`: any positive count hashes every
byte up to the end of the packet. -/
def hashBytes (numBytes : ℤ) : List UInt8 → UInt32 → List UInt8 × UInt32
  | [], hash => ([], hash)
  | b :: rest, hash => if 0 < numBytes then hashBytes numBytes rest (fnvStep hash b) else (b :: rest, hash)

/-- The loop of `_dnsPacket_hashQName`, where `skip` is the number of bytes of the current label
still to hash. It stops at a zero byte, at a malformed length, and before a label that reaches the
end of the packet. -/
def hashQNameFrom : ℕ → List UInt8 → UInt32 → List UInt8 × UInt32
  | _, [], hash => ([], hash)
  | 0, c :: rest, hash =>
    if c = 0 ∨ 64 ≤ c ∨ rest.length ≤ c.toNat then (rest, hash) else hashQNameFrom c.toNat rest hash
  | skip + 1, b :: rest, hash => hashQNameFrom skip rest (fnvStep hash b)

/-- `_dnsPacket_hashQR`: the name, then TYPE and CLASS. -/
def hashQR (cur : List UInt8) (hash : UInt32) : List UInt8 × UInt32 :=
  let r := hashQNameFrom 0 cur hash
  hashBytes 4 r.1 r.2

/-- `_dnsPacket_hashRR`: the question part, the TTL and the RDATA. -/
def hashRR (cur : List UInt8) (hash : UInt32) : List UInt8 × UInt32 :=
  let r := hashQR cur hash
  let r := hashBytes 4 r.1 r.2
  let rdlength := readInt16 r.1
  hashBytes rdlength.1 rdlength.2 r.2

/-- The loops of `_dnsPacket_hashQuery` over `count` records hashed by `step`. -/
def hashRecords (step : List UInt8 → UInt32 → List UInt8 × UInt32) :
    ℕ → List UInt8 → UInt32 → List UInt8 × UInt32
  | 0, cur, hash => (cur, hash)
  | n + 1, cur, hash =>
    let r := step cur hash
    hashRecords step n r.1 r.2

/-- `_dnsPacket_hashQuery`. The RD bit reads `base[2]`, past the end of a packet of fewer than
three bytes, which `entry_init_key` hashes before it checks it; the model reads `0` there. -/
def hashQuery (q : List UInt8) : UInt32 :=
  -- ignore the ID, hash the RD bit
  let hash := fnvBasis * fnvMult ^^^ (q.getD 2 0 &&& 1).toUInt32
  let r := hashBytes 1 (skip 1 (skip 2 q)) hash
  let count := readInt16 r.1
  let arcount := readInt16 (skip 4 count.2)
  let r := hashRecords hashQR count.1.toNat arcount.2 r.2
  (hashRecords hashRR arcount.1.toNat r.1 r.2).2

/-! ## The comparison -/

/-- The loop of `_dnsPacket_isEqualDomainName` over two cursors, where `skip` is the number of
bytes of the current label still to compare. The source checks that the label fits both packets
and then `memcmp`s it; comparing it byte by byte fails in the same cases. -/
def isEqualDomainNameFrom : ℕ → List UInt8 → List UInt8 → Option (List UInt8 × List UInt8)
  | _, [], _ => none
  | _, _ :: _, [] => none
  | 0, c1 :: r1, c2 :: r2 =>
    if c1 ≠ c2 then none
    else if c1 = 0 then some (r1, r2)
    else if 64 ≤ c1 then none
    else isEqualDomainNameFrom c1.toNat r1 r2
  | skip + 1, b1 :: r1, b2 :: r2 => if b1 ≠ b2 then none else isEqualDomainNameFrom skip r1 r2

/-- `_dnsPacket_isEqualBytes`. A negative count only arises from an RDATA length that could not be
read, where the source hands it to `memcmp` as a huge size; it is modelled as a mismatch. -/
def isEqualBytes (numBytes : ℤ) (cur1 cur2 : List UInt8) : Option (List UInt8 × List UInt8) :=
  if numBytes < 0 then none
  else if cur1.length < numBytes.toNat ∨ cur2.length < numBytes.toNat then none
  else if cur1.take numBytes.toNat ≠ cur2.take numBytes.toNat then none
  else some (cur1.drop numBytes.toNat, cur2.drop numBytes.toNat)

/-- `_dnsPacket_isEqualQR`: the name, then TYPE and CLASS. -/
def isEqualQR (cur1 cur2 : List UInt8) : Option (List UInt8 × List UInt8) := do
  let r ← isEqualDomainNameFrom 0 cur1 cur2
  isEqualBytes 4 r.1 r.2

/-- `_dnsPacket_isEqualRR`: the question part, the TTL, the RDATA length and the RDATA. -/
def isEqualRR (cur1 cur2 : List UInt8) : Option (List UInt8 × List UInt8) := do
  let r ← isEqualQR cur1 cur2
  let r ← isEqualBytes 4 r.1 r.2
  let rdlength1 := readInt16 r.1
  let rdlength2 := readInt16 r.2
  if rdlength1.1 ≠ rdlength2.1 then none
  else isEqualBytes rdlength1.1 rdlength1.2 rdlength2.2

/-- The loops of `_dnsPacket_isEqualQuery` over `count` records compared by `step`. -/
def isEqualRecords (step : List UInt8 → List UInt8 → Option (List UInt8 × List UInt8)) :
    ℕ → List UInt8 → List UInt8 → Option (List UInt8 × List UInt8)
  | 0, cur1, cur2 => some (cur1, cur2)
  | n + 1, cur1, cur2 => (step cur1 cur2).bind fun r ↦ isEqualRecords step n r.1 r.2

/-- `_dnsPacket_isEqualQuery`: the RD bit, the fourth header byte, `QDCOUNT`, `ARCOUNT` and the
records. The ID, the rest of the third byte, `ANCOUNT` and `NSCOUNT` are not compared. -/
def isEqualQuery (q1 q2 : List UInt8) : Bool :=
  if q1.getD 2 0 &&& 1 ≠ q2.getD 2 0 &&& 1 then false
  else if q1.getD 3 0 ≠ q2.getD 3 0 then false
  else
    let count1 := readInt16 (skip 4 q1)
    let count2 := readInt16 (skip 4 q2)
    if count1.1 ≠ count2.1 ∨ count1.1 < 0 then false
    else
      let arcount1 := readInt16 (skip 4 count1.2)
      let arcount2 := readInt16 (skip 4 count2.2)
      if arcount1.1 ≠ arcount2.1 ∨ arcount1.1 < 0 then false
      else
        match isEqualRecords isEqualQR count1.1.toNat arcount1.2 arcount2.2 with
        | none => false
        | some r => (isEqualRecords isEqualRR arcount1.1.toNat r.1 r.2).isSome

/-- The key equality of the cache: both queries checked, of one length, and equal under
`_dnsPacket_isEqualQuery` (`entry_equals` on two checked keys). -/
def QueryEquiv (q1 q2 : List UInt8) : Prop :=
  checkQuery q1 = true ∧ checkQuery q2 = true ∧ q1.length = q2.length ∧ isEqualQuery q1 q2 = true

/-! ## The hash reads every byte from the third on -/

section Hash

theorem hashBytes_of_pos {numBytes : ℤ} (h : 0 < numBytes) (cur : List UInt8) (hash : UInt32) :
    hashBytes numBytes cur hash = ([], cur.foldl fnvStep hash) := by
  induction cur generalizing hash with
  | nil => rfl
  | cons b rest ih => simp [hashBytes, h, ih]

/-- **What `_dnsPacket_hashQuery` computes**: the FNV hash of the RD bit and of every byte from the
third on. The counts are then read at the end of the packet, as `-1`, and no record is hashed. -/
theorem hashQuery_eq (q : List UInt8) :
    hashQuery q = (q.drop 3).foldl fnvStep (fnvBasis * fnvMult ^^^ (q.getD 2 0 &&& 1).toUInt32) := by
  simp only [hashQuery, skip, List.drop_drop, hashBytes_of_pos (by decide : (0 : ℤ) < 1)]
  rfl

theorem fnvStep_injective (hash : UInt32) : Function.Injective (fnvStep hash) := fun _ _ h ↦
  UInt8.toUInt32_inj.mp ((UInt32.xor_right_inj _).mp h)

theorem hashQuery_append_singleton_ne {q : List UInt8} (hq : 3 ≤ q.length) {b b' : UInt8}
    (hb : b ≠ b') : hashQuery (q ++ [b]) ≠ hashQuery (q ++ [b']) := by
  have hget : ∀ c : UInt8, (q ++ [c]).getD 2 0 = q.getD 2 0 := fun c ↦ by
    simp [List.getD_eq_getElem?_getD, List.getElem?_append_left (by omega : 2 < q.length)]
  rw [hashQuery_eq, hashQuery_eq, hget, hget, List.drop_append_of_le_length hq,
    List.drop_append_of_le_length hq, List.foldl_append, List.foldl_append]
  exact fun h ↦ hb (fnvStep_injective _ (by simpa using h))

end Hash

/-! ## Checking reads only the records -/

section Append

variable (t t' : List UInt8)

theorem checkBytes_eq_some {bytes cur r : List UInt8} (h : checkBytes bytes cur = some r) :
    bytes.length ≤ cur.length ∧ r = cur.drop bytes.length := by
  simp only [checkBytes, Option.ite_none_right_eq_some, Option.some.injEq] at h
  obtain ⟨hpre, rfl⟩ := h
  exact ⟨(List.isPrefixOf_iff_prefix.mp hpre).length_le, rfl⟩

theorem orElse_eq_some {x y : Option (List UInt8)} {r : List UInt8} (h : (x <|> y) = some r) :
    x = some r ∨ y = some r := by
  cases x with
  | none => exact .inr (by simpa using h)
  | some a => exact .inl (by simpa using h)

theorem checkType_eq_some {cur r : List UInt8}
    (h : (checkBytes dnsTypeA cur <|> checkBytes dnsTypePtr cur <|> checkBytes dnsTypeMx cur <|>
      checkBytes dnsTypeAaaa cur <|> checkBytes dnsTypeAll cur) = some r) :
    2 ≤ cur.length ∧ r = cur.drop 2 := by
  rcases orElse_eq_some h with h | h
  · exact checkBytes_eq_some h
  rcases orElse_eq_some h with h | h
  · exact checkBytes_eq_some h
  rcases orElse_eq_some h with h | h
  · exact checkBytes_eq_some h
  rcases orElse_eq_some h with h | h <;> exact checkBytes_eq_some h

theorem checkQNameFrom_append {k : ℕ} {l r : List UInt8} (h : checkQNameFrom k l = some r) :
    checkQNameFrom k (l ++ t) = some (r ++ t) := by
  induction l generalizing k with
  | nil => cases k <;> simp [checkQNameFrom] at h
  | cons c rest ih =>
    cases k with
    | zero =>
      simp only [checkQNameFrom, List.cons_append] at h ⊢
      split_ifs at h ⊢ with h0 h64
      · cases h
        rfl
      · exact ih h
    | succ k => exact ih h

theorem checkQR_eq_some {l r : List UInt8} (h : checkQR l = some r) :
    ∃ r₁, checkQNameFrom 0 l = some r₁ ∧ 4 ≤ r₁.length ∧ r = r₁.drop 4 := by
  simp only [checkQR, checkQName, Option.bind_eq_bind, Option.bind_eq_some_iff] at h
  obtain ⟨r₁, hname, r₂, htype, hclass⟩ := h
  obtain ⟨h₂, rfl⟩ := checkType_eq_some htype
  obtain ⟨h₄, rfl⟩ := checkBytes_eq_some hclass
  refine ⟨r₁, hname, ?_, ?_⟩
  · simp [dnsClassIn] at h₄
    omega
  · simp [dnsClassIn, List.drop_drop]

theorem checkBytes_append {bytes cur : List UInt8} (h : bytes.length ≤ cur.length) :
    checkBytes bytes (cur ++ t) = (checkBytes bytes cur).map (· ++ t) := by
  unfold checkBytes
  by_cases hp : bytes.isPrefixOf cur = true
  · have hp' : bytes.isPrefixOf (cur ++ t) = true :=
      List.isPrefixOf_iff_prefix.mpr ((List.isPrefixOf_iff_prefix.mp hp).trans (List.prefix_append _ _))
    simp [hp, hp', List.drop_append_of_le_length h]
  · have hp' : ¬bytes.isPrefixOf (cur ++ t) = true := fun hp' ↦ hp (List.isPrefixOf_iff_prefix.mpr
      (List.prefix_of_prefix_length_le (List.isPrefixOf_iff_prefix.mp hp') (List.prefix_append _ _) h))
    simp [hp, hp']

theorem orElse_map (x y : Option (List UInt8)) :
    (x.map (· ++ t) <|> y.map (· ++ t)) = (x <|> y).map (· ++ t) := by
  cases x <;> rfl

theorem checkQR_append {l r : List UInt8} (h : checkQR l = some r) :
    checkQR (l ++ t) = some (r ++ t) := by
  simp only [checkQR, checkQName, Option.bind_eq_bind, Option.bind_eq_some_iff] at h
  obtain ⟨r₁, hname, r₂, htype, hclass⟩ := h
  obtain ⟨h₂, rfl⟩ := checkType_eq_some htype
  obtain ⟨h₄, rfl⟩ := checkBytes_eq_some hclass
  have hlen : ∀ bytes : List UInt8, bytes.length = 2 → bytes.length ≤ r₁.length := by omega
  -- every TYPE is read within the bytes of `l`, and so is CLASS
  simp only [checkQR, checkQName, Option.bind_eq_bind, checkQNameFrom_append t hname,
    Option.bind_some, checkBytes_append t (hlen dnsTypeA rfl), checkBytes_append t (hlen dnsTypePtr rfl),
    checkBytes_append t (hlen dnsTypeMx rfl), checkBytes_append t (hlen dnsTypeAaaa rfl),
    checkBytes_append t (hlen dnsTypeAll rfl), orElse_map, htype, Option.map_some]
  rw [checkBytes_append t h₄, hclass]
  rfl

theorem checkQRs_append {n : ℕ} {l r : List UInt8} (h : checkQRs n l = some r) :
    checkQRs n (l ++ t) = some (r ++ t) := by
  induction n generalizing l with
  | zero =>
    cases h
    rfl
  | succ n ih =>
    simp only [checkQRs, Option.bind_eq_some_iff] at h ⊢
    obtain ⟨r₁, h₁, h₂⟩ := h
    exact ⟨r₁ ++ t, checkQR_append t h₁, ih h₂⟩

theorem getD_append_of_lt {q : List UInt8} {i : ℕ} (h : i < q.length) :
    (q ++ t).getD i 0 = q.getD i 0 := by
  simp [List.getD_eq_getElem?_getD, List.getElem?_append_left h]

theorem be16_append {q : List UInt8} {i : ℕ} (h : i + 1 < q.length) : be16 (q ++ t) i = be16 q i := by
  rw [be16, be16, getD_append_of_lt t (by omega), getD_append_of_lt t h]

/-- A checked query stays checked with any bytes after it: the check reads only the header and the
question records. -/
theorem checkQuery_append {q : List UInt8} (h : checkQuery q = true) : checkQuery (q ++ t) = true := by
  have hlen : ¬q.length < dnsHeaderSize := fun hlt ↦ by simp [checkQuery, hlt] at h
  have hlen' : ¬(q ++ t).length < dnsHeaderSize := by
    rw [List.length_append]
    omega
  simp only [dnsHeaderSize] at hlen
  rw [checkQuery, if_neg hlen', getD_append_of_lt t (by omega), getD_append_of_lt t (by omega),
    be16_append t (by omega), be16_append t (by omega), be16_append t (by omega),
    be16_append t (by omega), List.drop_append_of_le_length (by simp only [dnsHeaderSize]; omega)]
  rw [checkQuery, if_neg (by simpa only [dnsHeaderSize] using hlen)] at h
  split_ifs at h ⊢
  obtain ⟨r, hr⟩ := Option.isSome_iff_exists.mp h
  rw [checkQRs_append t hr]
  rfl

theorem checkQuery_eq_true {q : List UInt8} (h : checkQuery q = true) :
    dnsHeaderSize ≤ q.length ∧ ∃ r, checkQRs (be16 q 4) (q.drop dnsHeaderSize) = some r := by
  have hlen : ¬q.length < dnsHeaderSize := fun hlt ↦ by simp [checkQuery, hlt] at h
  rw [checkQuery, if_neg hlen] at h
  split_ifs at h
  exact ⟨by omega, Option.isSome_iff_exists.mp h⟩

theorem readInt16_drop {q : List UInt8} {i : ℕ} (h : i + 2 ≤ q.length) :
    readInt16 (q.drop i) = ((be16 q i : ℤ), q.drop (i + 2)) := by
  rw [List.drop_eq_getElem_cons (by omega), List.drop_eq_getElem_cons (by omega)]
  simp [readInt16, be16, List.getD_eq_getElem?_getD, List.getElem?_eq_getElem (by omega : i < q.length),
    List.getElem?_eq_getElem (by omega : i + 1 < q.length)]

end Append

/-! ## The comparison reads only the records -/

section Equal

variable (t t' : List UInt8)

theorem isEqualDomainNameFrom_append {k : ℕ} {l r : List UInt8} (h : checkQNameFrom k l = some r) :
    isEqualDomainNameFrom k (l ++ t) (l ++ t') = some (r ++ t, r ++ t') := by
  induction l generalizing k with
  | nil => cases k <;> simp [checkQNameFrom] at h
  | cons c rest ih =>
    cases k with
    | zero =>
      simp only [checkQNameFrom] at h
      simp only [List.cons_append, isEqualDomainNameFrom, ne_eq, not_true_eq_false, if_false]
      split_ifs at h ⊢
      · cases h
        rfl
      · exact ih h
    | succ k =>
      simp only [List.cons_append, isEqualDomainNameFrom, ne_eq, not_true_eq_false, if_false]
      exact ih h

theorem isEqualBytes_append {n : ℕ} {cur : List UInt8} (h : n ≤ cur.length) :
    isEqualBytes n (cur ++ t) (cur ++ t') = some (cur.drop n ++ t, cur.drop n ++ t') := by
  have ht : (cur ++ t).take n = (cur ++ t').take n := by
    rw [List.take_append_of_le_length h, List.take_append_of_le_length h]
  simp [isEqualBytes, ht, List.drop_append_of_le_length h]
  omega

theorem isEqualQR_append {l r : List UInt8} (h : checkQR l = some r) :
    isEqualQR (l ++ t) (l ++ t') = some (r ++ t, r ++ t') := by
  obtain ⟨r₁, hname, hlen, rfl⟩ := checkQR_eq_some h
  simp only [isEqualQR, Option.bind_eq_bind, isEqualDomainNameFrom_append t t' hname, Option.bind_some]
  exact isEqualBytes_append t t' hlen

theorem isEqualRecords_append {n : ℕ} {l r : List UInt8} (h : checkQRs n l = some r) :
    isEqualRecords isEqualQR n (l ++ t) (l ++ t') = some (r ++ t, r ++ t') := by
  induction n generalizing l with
  | zero =>
    cases h
    rfl
  | succ n ih =>
    simp only [checkQRs, Option.bind_eq_some_iff] at h
    obtain ⟨r₁, h₁, h₂⟩ := h
    simp only [isEqualRecords, isEqualQR_append t t' h₁, Option.bind_some]
    exact ih h₂

/-- **A checked query without an additional record equals, under `_dnsPacket_isEqualQuery`, itself
with any bytes after it**, different ones on the two sides. -/
theorem isEqualQuery_append {q : List UInt8} (hq : checkQuery q = true) (har : be16 q 10 = 0) :
    isEqualQuery (q ++ t) (q ++ t') = true := by
  obtain ⟨hlen, r, hr⟩ := checkQuery_eq_true hq
  simp only [dnsHeaderSize] at hlen hr
  have hcount : ∀ u : List UInt8, readInt16 (skip 4 (q ++ u)) = ((be16 q 4 : ℤ), (q ++ u).drop 6) :=
    fun u ↦ by
      rw [skip, readInt16_drop (by simp; omega), be16_append u (by omega)]
  have harcount : ∀ u : List UInt8, readInt16 (skip 4 ((q ++ u).drop 6)) = (0, (q ++ u).drop 12) :=
    fun u ↦ by
      rw [skip, List.drop_drop, readInt16_drop (by simp; omega), be16_append u (by omega), har]
      rfl
  have hrecords : isEqualRecords isEqualQR (be16 q 4) ((q ++ t).drop 12) ((q ++ t').drop 12) =
      some (r ++ t, r ++ t') := by
    rw [List.drop_append_of_le_length (by omega), List.drop_append_of_le_length (by omega)]
    exact isEqualRecords_append t t' hr
  simp only [isEqualQuery, getD_append_of_lt t (by omega : 2 < q.length),
    getD_append_of_lt t' (by omega : 2 < q.length), getD_append_of_lt t (by omega : 3 < q.length),
    getD_append_of_lt t' (by omega : 3 < q.length), hcount, harcount, Int.toNat_natCast, hrecords]
  simp [isEqualRecords]

/-- **Equal keys, different hashes.** A checked query without an additional record, with one byte
after it, is `~`-equal to the same query with any other byte after it, and the two hash
differently. -/
theorem queryEquiv_append_singleton {q : List UInt8} (hq : checkQuery q = true) (har : be16 q 10 = 0)
    {b b' : UInt8} (hb : b ≠ b') :
    QueryEquiv (q ++ [b]) (q ++ [b']) ∧ hashQuery (q ++ [b]) ≠ hashQuery (q ++ [b']) := by
  have hlen := (checkQuery_eq_true hq).1
  refine ⟨⟨checkQuery_append _ hq, checkQuery_append _ hq, by simp, isEqualQuery_append _ _ hq har⟩, ?_⟩
  exact hashQuery_append_singleton_ne (by simp only [dnsHeaderSize] at hlen; omega) hb

end Equal

end Bionic.Dns.Packet
