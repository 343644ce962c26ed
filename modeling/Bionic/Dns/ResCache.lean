import Bionic.Dns.Packet

/-!
# The resolver cache of one network

`res_cache.c` keeps, for each network, a hash table of `max_entries` buckets chained through
`hlink` and an MRU list of the same entries. An entry is found by `_cache_lookup_p`: in the bucket
of the key's hash, the first entry with the key's hash and an equal query (`entry_equals`). A
lookup that finds a live entry moves it to the front of the MRU list. An add of a new key into a
full cache first drops the expired entries, then the entry at the back of the MRU list.

Because `_dnsPacket_hashQuery` hashes bytes that `_dnsPacket_isEqualQuery` does not compare, two
queries that the cache's own equality identifies can fall under different hashes.
`resolvCacheLookup_misses_equal_query` shows that a lookup then misses the answer just added for an
equal query. `resolvCacheLookup_add_self` shows that the same query finds it.

The model covers one network's cache in one thread. The pending-request wait of
`_resolv_cache_lookup` changes no entry and ends, in one thread, in `RESOLV_CACHE_NOTFOUND`, so it is
left out. `answer_getTTL` parses the answer with the name-server library and is a parameter.
`entry_alloc` is taken to succeed. Entries are told apart by the number `_cache_add_p` gives them.
-/

set_option autoImplicit false
set_option relaxedAutoImplicit false

namespace Bionic.Dns.ResCache

open Bionic.Dns.Packet

/-- An entry of the cache, or a lookup key (`entry_init_key`, with no answer). -/
structure Entry where
  hash : UInt32
  query : List UInt8
  answer : List UInt8
  expires : ℕ
  id : ℕ

/-- The cache of one network. -/
structure Cache where
  maxEntries : ℕ
  /-- `entries[i]`, the chain of bucket `i` through `hlink`. -/
  entries : ℕ → List Entry
  /-- `mru_list` from `mru_next`: the entry most recently added or found first. -/
  mru : List Entry
  numEntries : ℕ
  lastId : ℕ

/-- `ResolvCacheStatus`. -/
inductive ResolvCacheStatus where
  | unsupported
  | notFound
  | found
  deriving DecidableEq, Repr

/-- `_resolv_cache_create`: an empty cache of `max_entries` buckets. -/
def resolvCacheCreate (maxEntries : ℕ) : Cache := ⟨maxEntries, fun _ ↦ [], [], 0, 0⟩

/-- `entry_init_key`: the key of a query, `none` for a query the cache does not take. The hash is
computed before the check. -/
def entryInitKey (query : List UInt8) : Option Entry :=
  let hash := hashQuery query
  if checkQuery query then some ⟨hash, query, [], 0, 0⟩ else none

/-- `entry_equals`. -/
def entryEquals (e1 e2 : Entry) : Bool :=
  e1.query.length == e2.query.length && isEqualQuery e1.query e2.query

/-- `_cache_lookup_p`: the first entry of the key's bucket with the key's hash and an equal query. -/
def cacheLookupP (c : Cache) (key : Entry) : Option Entry :=
  (c.entries (key.hash.toNat % c.maxEntries)).find? fun node ↦ node.hash == key.hash && entryEquals node key

/-- `_cache_remove_p`: the entry is unlinked from its chain and from the MRU list. -/
def cacheRemoveP (c : Cache) (e : Entry) : Cache :=
  let i := e.hash.toNat % c.maxEntries
  { c with
    entries := Function.update c.entries i ((c.entries i).filter fun n ↦ n.id != e.id)
    mru := c.mru.filter fun n ↦ n.id != e.id
    numEntries := c.numEntries - 1 }

/-- `_cache_add_p`: the entry, numbered `++last_id`, goes at the end of its chain, where the failed
lookup stopped, and at the front of the MRU list. -/
def cacheAddP (c : Cache) (e : Entry) : Cache :=
  let e := { e with id := c.lastId + 1 }
  let i := e.hash.toNat % c.maxEntries
  { c with
    entries := Function.update c.entries i (c.entries i ++ [e])
    mru := e :: c.mru
    numEntries := c.numEntries + 1
    lastId := c.lastId + 1 }

/-- `_cache_remove_oldest`: the entry at the back of the MRU list, as `_cache_lookup_p` finds it. -/
def cacheRemoveOldest (c : Cache) : Cache :=
  match c.mru.getLast? with
  | none => c
  | some oldest =>
    match cacheLookupP c oldest with
    | none => c
    | some e => cacheRemoveP c e

/-- The walk of `_cache_remove_expired` along the MRU list from the front. An expired entry is
looked up and removed; a lookup that fails ends the walk. -/
def cacheRemoveExpiredFrom (now : ℕ) (c : Cache) : List Entry → Cache
  | [] => c
  | e :: rest =>
    if e.expires ≤ now then
      match cacheLookupP c e with
      | none => c
      | some found => cacheRemoveExpiredFrom now (cacheRemoveP c found) rest
    else cacheRemoveExpiredFrom now c rest

/-- `_cache_remove_expired`. -/
def cacheRemoveExpired (now : ℕ) (c : Cache) : Cache := cacheRemoveExpiredFrom now c c.mru

/-- `_cache_flush_locked`, behind `_resolv_flush_cache_for_net`. -/
def cacheFlush (c : Cache) : Cache := { c with entries := fun _ ↦ [], mru := [], numEntries := 0, lastId := 0 }

/-- `_resolv_cache_lookup` at time `now` with an answer buffer of `answersize` bytes: the status, the
answer copied out when found, and the cache after. -/
def resolvCacheLookup (c : Cache) (query : List UInt8) (answersize now : ℕ) :
    ResolvCacheStatus × Option (List UInt8) × Cache :=
  match entryInitKey query with
  | none => (.unsupported, none, c)
  | some key =>
    match cacheLookupP c key with
    | none => (.notFound, none, c)
    | some e =>
      -- a stale entry is removed
      if e.expires ≤ now then (.notFound, none, cacheRemoveP c e)
      -- "we return UNSUPPORTED if the answer buffer is too short"
      else if answersize < e.answer.length then (.unsupported, none, c)
      else (.found, some e.answer, { c with mru := e :: c.mru.filter fun n ↦ n.id != e.id })

/-- The end of `_resolv_cache_add` once no entry of the key is present: an answer with a positive
TTL is added, to expire `ttl` seconds from now. -/
def cacheInsert (answerGetTTL : List UInt8 → ℕ) (c : Cache) (key : Entry) (answer : List UInt8)
    (now : ℕ) : Cache :=
  let ttl := answerGetTTL answer
  if 0 < ttl then cacheAddP c { key with answer := answer, expires := ttl + now } else c

/-- `_resolv_cache_add` at time `now`, where `answerGetTTL` is `answer_getTTL`. -/
def resolvCacheAdd (answerGetTTL : List UInt8 → ℕ) (c : Cache) (query answer : List UInt8)
    (now : ℕ) : Cache :=
  match entryInitKey query with
  | none => c
  | some key =>
    match cacheLookupP c key with
    -- "ALREADY IN CACHE ? IGNORING ADD"
    | some _ => c
    | none =>
      if c.maxEntries ≤ c.numEntries then
        let c := cacheRemoveExpired now c
        let c := if c.maxEntries ≤ c.numEntries then cacheRemoveOldest c else c
        -- "need to lookup again"
        match cacheLookupP c key with
        | some _ => c
        | none => cacheInsert answerGetTTL c key answer now
      else cacheInsert answerGetTTL c key answer now

/-! ## An add into a flushed cache -/

section Flushed

variable (answerGetTTL : List UInt8 → ℕ) (c : Cache)

theorem entryInitKey_of_checkQuery {q : List UInt8} (h : checkQuery q = true) :
    entryInitKey q = some ⟨hashQuery q, q, [], 0, 0⟩ := by
  simp [entryInitKey, h]

theorem cacheLookupP_cacheFlush (key : Entry) : cacheLookupP (cacheFlush c) key = none := rfl

/-- In a cache holding the one entry `e`, a key finds `e` when it has `e`'s hash and an equal query,
and nothing otherwise: a key of another bucket has another hash. -/
theorem cacheLookupP_cacheAddP_cacheFlush (e key : Entry) :
    cacheLookupP (cacheAddP (cacheFlush c) e) key =
      if e.hash = key.hash ∧ entryEquals { e with id := 1 } key then some { e with id := 1 } else none := by
  by_cases hbucket : key.hash.toNat % c.maxEntries = e.hash.toNat % c.maxEntries
  · simp only [cacheLookupP, cacheAddP, cacheFlush, hbucket, Function.update_self, List.nil_append,
      List.find?_singleton]
    by_cases hh : e.hash = key.hash <;> cases entryEquals { e with id := 1 } key <;> simp [hh]
  · have hh : e.hash ≠ key.hash := fun h ↦ hbucket (by rw [h])
    simp [cacheLookupP, cacheAddP, cacheFlush, hbucket, hh]

/-- **An add into a flushed cache** of a checked query whose answer has a positive TTL stores one
entry, numbered 1, that expires `ttl` seconds from now. -/
theorem resolvCacheAdd_cacheFlush (hM : 0 < c.maxEntries) {q : List UInt8} (hq : checkQuery q = true)
    (answer : List UInt8) (httl : 0 < answerGetTTL answer) (now : ℕ) :
    resolvCacheAdd answerGetTTL (cacheFlush c) q answer now =
      cacheAddP (cacheFlush c) ⟨hashQuery q, q, answer, answerGetTTL answer + now, 0⟩ := by
  have hfull : ¬(cacheFlush c).maxEntries ≤ (cacheFlush c).numEntries := by
    simp only [cacheFlush]
    omega
  simp only [resolvCacheAdd, entryInitKey_of_checkQuery hq, cacheLookupP_cacheFlush, if_neg hfull,
    cacheInsert, if_pos httl]

end Flushed

/-! ## Equal queries under different hashes -/

/-- A query looked up right after it was added to a flushed cache is found while its answer is
live and fits the buffer. -/
theorem resolvCacheLookup_add_self (answerGetTTL : List UInt8 → ℕ) (c : Cache) (hM : 0 < c.maxEntries)
    {q : List UInt8} (hq : checkQuery q = true) (har : be16 q 10 = 0) (answer : List UInt8)
    (httl : 0 < answerGetTTL answer) (now now' answersize : ℕ) (hlive : now' < answerGetTTL answer + now)
    (hsize : answer.length ≤ answersize) :
    (resolvCacheLookup (resolvCacheAdd answerGetTTL (cacheFlush c) q answer now) q answersize now').1 =
      .found := by
  have hself : isEqualQuery q q = true := by simpa using isEqualQuery_append [] [] hq har
  rw [resolvCacheAdd_cacheFlush answerGetTTL c hM hq answer httl now]
  simp only [resolvCacheLookup, entryInitKey_of_checkQuery hq, cacheLookupP_cacheAddP_cacheFlush]
  simp [entryEquals, hself, Nat.not_le.mpr hlive, Nat.not_lt.mpr hsize]

/-- **A cached answer is missed for an equal query.** Add to a flushed cache the answer of a checked
query without an additional record, with a byte after its records. Then look up the same query
with any other last byte: the two queries are equal keys of the cache, but the lookup does not
find the answer, at any time. -/
theorem resolvCacheLookup_misses_equal_query (answerGetTTL : List UInt8 → ℕ) (c : Cache)
    (hM : 0 < c.maxEntries) {q : List UInt8} (hq : checkQuery q = true) (har : be16 q 10 = 0)
    {b b' : UInt8} (hb : b ≠ b') (answer : List UInt8) (httl : 0 < answerGetTTL answer)
    (now now' answersize : ℕ) :
    QueryEquiv (q ++ [b]) (q ++ [b']) ∧
      (resolvCacheLookup (resolvCacheAdd answerGetTTL (cacheFlush c) (q ++ [b]) answer now)
        (q ++ [b']) answersize now').1 = .notFound := by
  obtain ⟨hequiv, hhash⟩ := queryEquiv_append_singleton hq har hb
  refine ⟨hequiv, ?_⟩
  rw [resolvCacheAdd_cacheFlush answerGetTTL c hM hequiv.1 answer httl now]
  simp only [resolvCacheLookup, entryInitKey_of_checkQuery hequiv.2.1, cacheLookupP_cacheAddP_cacheFlush]
  simp [hhash]

/-- A query for `abc`, type A, class IN, with recursion desired and no additional record. -/
def queryAbc : List UInt8 :=
  [0x12, 0x34, 0x01, 0x00, 0, 1, 0, 0, 0, 0, 0, 0, 3, 97, 98, 99, 0, 0, 1, 0, 1]

/-- The answer of `queryAbc` followed by a zero byte, cached for 300 seconds at time 1000, is
missed at time 1001 for `queryAbc` followed by a one byte, in a cache of 16 buckets. -/
theorem resolvCacheLookup_misses_equal_query_abc :
    QueryEquiv (queryAbc ++ [0]) (queryAbc ++ [1]) ∧
      (resolvCacheLookup (resolvCacheAdd (fun _ ↦ 300) (cacheFlush (resolvCacheCreate 16))
        (queryAbc ++ [0]) [0x12, 0x34, 0x81, 0x80] 1000) (queryAbc ++ [1]) 512 1001).1 = .notFound :=
  resolvCacheLookup_misses_equal_query (fun _ ↦ 300) (resolvCacheCreate 16) (by decide) (by decide)
    (by decide) (by decide) [0x12, 0x34, 0x81, 0x80] (by decide) 1000 1001 512

end Bionic.Dns.ResCache
