import Bionic.Lib.Decimal

/-!
# The Android id database of `grp_pwd.cpp`

`getpwuid`, `getpwnam`, `getgrgid` and `getgrnam` on Android answer from three sources in turn:
the generated `android_ids` table (`find_android_id_info`), the OEM ranges (`oem_<n>`), and the
per-user app ids, whose names `print_app_name_from_uid` / `print_app_name_from_gid` write and
`app_id_from_name` reads back (`u<user>_a<n>`, `u<user>_i<n>`, `u<user>_<platform name>`,
`all_a<n>`, and the group suffixes `_cache`, `_ext`, `_ext_cache`).

The table is a parameter (`ids`), since it is generated outside this repository, and so is
`device_launched_before_api_29`. The vendor, odm, product and system_ext passwd and group files
are taken to be absent. Names are `String`s read as character lists where the source parses
them; every name buffer is `kGrpPwdBufferSize` bytes, so `snprintf` keeps at most 31 characters.
The AID values are those of `android_filesystem_config.h`, which `grp_pwd_test.cpp` pins
(`u0_a0` is 10000, `u0_a0_cache` 20000, `all_a0` 50000, `u0_i1` 90001, `u1_system` 101000).
-/

set_option autoImplicit false
set_option relaxedAutoImplicit false

namespace Bionic.GrpPwd

open Bionic.Lib.Decimal

/-! ## Ids -/

def aidSystem : ℕ := 1000
def aidRadio : ℕ := 1001
def aidBluetooth : ℕ := 1002
def aidLog : ℕ := 1007
def aidNfc : ℕ := 1027
def aidSecureElement : ℕ := 1068
def aidNetworkStack : ℕ := 1073
def aidShell : ℕ := 2000
def aidOemReservedStart : ℕ := 2900
def aidOemReservedEnd : ℕ := 2999
def aidOemReserved2Start : ℕ := 5000
def aidOemReserved2End : ℕ := 5999
def aidEverybody : ℕ := 9997
def aidAppStart : ℕ := 10000
def aidAppEnd : ℕ := 19999
def aidCacheGidStart : ℕ := 20000
def aidCacheGidEnd : ℕ := 29999
def aidExtGidStart : ℕ := 30000
def aidExtGidEnd : ℕ := 39999
def aidExtCacheGidStart : ℕ := 40000
def aidExtCacheGidEnd : ℕ := 49999
def aidSharedGidStart : ℕ := 50000
def aidSharedGidEnd : ℕ := 59999
def aidOverflowuid : ℕ := 65534
def aidIsolatedStart : ℕ := 90000
def aidIsolatedEnd : ℕ := 99999
def aidUserOffset : ℕ := 100000

/-- `kGrpPwdBufferSize`. -/
def kGrpPwdBufferSize : ℕ := 32

/-- An entry of `android_ids`. -/
structure AndroidIdInfo where
  name : String
  aid : ℕ
  deriving DecidableEq, Repr

/-- What `getpw*` return. -/
structure Passwd where
  pwName : String
  pwUid : ℕ
  pwGid : ℕ
  pwDir : String
  pwShell : String
  deriving DecidableEq, Repr

/-- What `getgr*` return (the member list is the name alone). -/
structure Group where
  grName : String
  grGid : ℕ
  deriving DecidableEq, Repr

/-- `snprintf(buffer, bufferlen, "%s", s)`: at most `bufferlen - 1` characters. -/
def snprintf (bufferlen : ℕ) (s : String) : String := String.ofList (s.toList.take (bufferlen - 1))

variable (ids : List AndroidIdInfo)

/-- `find_android_id_info(unsigned id)`: the first entry with that id. -/
def findAndroidIdInfo (id : ℕ) : Option AndroidIdInfo := ids.find? fun i ↦ i.aid == id

/-- `find_android_id_info(const char* name)`: the first entry with that name. -/
def findAndroidIdInfoByName (name : String) : Option AndroidIdInfo := ids.find? fun i ↦ i.name == name

/-! ## App ids -/

/-- `struct IdRange`, both ends included. -/
structure IdRange where
  start : ℕ
  «end» : ℕ
  deriving DecidableEq, Repr

def userRanges : List IdRange :=
  [⟨aidAppStart, aidAppEnd⟩, ⟨aidIsolatedStart, aidIsolatedEnd⟩]

def groupRanges : List IdRange :=
  [⟨aidAppStart, aidAppEnd⟩, ⟨aidCacheGidStart, aidCacheGidEnd⟩, ⟨aidExtGidStart, aidExtGidEnd⟩,
    ⟨aidExtCacheGidStart, aidExtCacheGidEnd⟩, ⟨aidSharedGidStart, aidSharedGidEnd⟩,
    ⟨aidIsolatedStart, aidIsolatedEnd⟩]

/-- `secondary_user_platform_ids`. -/
def secondaryUserPlatformIds : List ℕ :=
  [aidSystem, aidRadio, aidLog, aidNfc, aidBluetooth, aidShell, aidSecureElement, aidNetworkStack]

/-- `platform_id_secondary_user_allowed`. -/
def platformIdSecondaryUserAllowed (id : ℕ) : Bool := secondaryUserPlatformIds.contains id

/-- `is_valid_app_id` (the Android one). -/
def isValidAppId (id : ℕ) (isGroup : Bool) : Bool :=
  let appid := id % aidUserOffset
  let ranges := if isGroup then groupRanges else userRanges
  if appid = aidOverflowuid then false
  -- below the first range: a platform id, allowed for secondary users only from the short list
  else if appid < (ranges.headD ⟨0, 0⟩).start && platformIdSecondaryUserAllowed appid then true
  -- the shared GID range belongs to the first user only
  else if aidSharedGidStart ≤ appid && appid ≤ aidSharedGidEnd && appid != id then false
  else ranges.any fun r ↦ r.start ≤ appid && appid ≤ r.end

/-- The suffix of a group name after `u<user>_a<n>`, and the range it selects. -/
def groupSuffixes : List (List Char × ℕ) :=
  [("_ext_cache".toList, aidExtCacheGidStart), ("_ext".toList, aidExtGidStart),
    ("_cache".toList, aidCacheGidStart)]

/-- The id part of a name after `u<user>_` (or `all_`): the app id and what is left of the name,
or `none` when the source returns `0` at once. `a` and `i` take a number; anything else must be a
platform name allowed for secondary users, and a name that matches nothing leaves the `_` in
place, which fails the check for the end of the name. -/
def appIdPart (isGroup isSharedGid : Bool) (afterUser : List Char) : Option (ℕ × List Char) :=
  match afterUser with
  | 'a' :: c :: rest =>
    if c.isDigit then
      let (v, «end») := strtoul (c :: rest)
      if isSharedGid then
        let appid := (v + aidSharedGidStart) % 2 ^ 64
        if aidSharedGidEnd < appid then none else some (appid, «end»)
      else if isGroup then
        match groupSuffixes.find? fun e ↦ e.1 == «end» with
        | some (_, start) => some ((v + start) % 2 ^ 64, [])
        | none => some ((v + aidAppStart) % 2 ^ 64, «end»)
      else some ((v + aidAppStart) % 2 ^ 64, «end»)
    else platformPart afterUser
  | 'i' :: c :: rest =>
    if c.isDigit then
      let (v, «end») := strtoul (c :: rest)
      some ((v + aidIsolatedStart) % 2 ^ 64, «end»)
    else platformPart afterUser
  | _ => platformPart afterUser
where
  /-- The platform-name case: a name of `android_ids` taking the rest of the string. -/
  platformPart (afterUser : List Char) : Option (ℕ × List Char) :=
    match findAndroidIdInfoByName ids (String.ofList afterUser) with
    | some info => if platformIdSecondaryUserAllowed info.aid then some (info.aid, []) else none
    | none => some (0, '_' :: afterUser)

/-- `app_id_from_name`: `0` on every failure. -/
def appIdFromName (name : List Char) (isGroup : Bool) : ℕ :=
  -- the user part: `all` (groups only, user 0) or `u` and a decimal user id
  let user : Option (ℕ × List Char × Bool) :=
    match name with
    | 'a' :: 'l' :: 'l' :: rest => if isGroup then some (0, rest, true) else none
    | 'u' :: c :: rest => if c.isDigit then
        let (userid, «end») := strtoul (c :: rest)
        some (userid, «end», false)
      else none
    | _ => none
  match user with
  | some (userid, '_' :: c :: rest, isSharedGid) =>
    match appIdPart ids isGroup isSharedGid (c :: rest) with
    | some (appid, «end») =>
      if «end» ≠ [] then 0
      else if 1000 < userid then 0
      else if aidUserOffset ≤ appid then 0
      else appid + userid * aidUserOffset
    | none => 0
  | _ => 0

/-- `print_app_name_from_uid`. A platform id missing from the table prints nothing, leaving the
buffer empty. -/
def printAppNameFromUid (uid : ℕ) : String :=
  let appid := uid % aidUserOffset
  let userid := uid / aidUserOffset
  if aidIsolatedStart ≤ appid then
    "u" ++ toString userid ++ "_i" ++ toString (appid - aidIsolatedStart)
  else if appid < aidAppStart then
    match findAndroidIdInfo ids appid with
    | some info => "u" ++ toString userid ++ "_" ++ info.name
    | none => ""
  else "u" ++ toString userid ++ "_a" ++ toString (appid - aidAppStart)

/-- `print_app_name_from_gid`. -/
def printAppNameFromGid (gid : ℕ) : String :=
  let appid := gid % aidUserOffset
  let userid := gid / aidUserOffset
  if aidIsolatedStart ≤ appid then
    "u" ++ toString userid ++ "_i" ++ toString (appid - aidIsolatedStart)
  else if userid = 0 ∧ aidSharedGidStart ≤ appid ∧ appid ≤ aidSharedGidEnd then
    "all_a" ++ toString (appid - aidSharedGidStart)
  else if aidExtCacheGidStart ≤ appid ∧ appid ≤ aidExtCacheGidEnd then
    "u" ++ toString userid ++ "_a" ++ toString (appid - aidExtCacheGidStart) ++ "_ext_cache"
  else if aidExtGidStart ≤ appid ∧ appid ≤ aidExtGidEnd then
    "u" ++ toString userid ++ "_a" ++ toString (appid - aidExtGidStart) ++ "_ext"
  else if aidCacheGidStart ≤ appid ∧ appid ≤ aidCacheGidEnd then
    "u" ++ toString userid ++ "_a" ++ toString (appid - aidCacheGidStart) ++ "_cache"
  else if appid < aidAppStart then
    match findAndroidIdInfo ids appid with
    | some info => "u" ++ toString userid ++ "_" ++ info.name
    | none => ""
  else "u" ++ toString userid ++ "_a" ++ toString (appid - aidAppStart)

/-! ## OEM ids -/

variable (before29 : Bool)

/-- `is_oem_id`; `before29` is `device_launched_before_api_29()`. -/
def isOemId (id : ℕ) : Bool :=
  (before29 && aidOemReservedStart ≤ id && id < aidEverybody && (findAndroidIdInfo ids id).isNone) ||
    (aidOemReservedStart ≤ id && id ≤ aidOemReservedEnd) ||
    (aidOemReserved2Start ≤ id && id ≤ aidOemReserved2End)

/-- `oem_id_from_name`: `sscanf(name, "oem_%u", &id)`, then the range check. -/
def oemIdFromName (name : List Char) : ℕ :=
  match name with
  | 'o' :: 'e' :: 'm' :: '_' :: rest =>
    match scanU32 rest with
    | some id => if isOemId ids before29 id then id else 0
    | none => 0
  | _ => 0

/-! ## Lookups -/

/-- `android_iinfo_to_passwd`. -/
def androidIinfoToPasswd (info : AndroidIdInfo) : Passwd :=
  ⟨snprintf kGrpPwdBufferSize info.name, info.aid, info.aid, "/", "/bin/sh"⟩

/-- `android_iinfo_to_group`. -/
def androidIinfoToGroup (info : AndroidIdInfo) : Group :=
  ⟨snprintf kGrpPwdBufferSize info.name, info.aid⟩

/-- `oem_id_to_passwd`, with no passwd file. -/
def oemIdToPasswd (uid : ℕ) : Option Passwd :=
  if isOemId ids before29 uid then
    some ⟨snprintf kGrpPwdBufferSize ("oem_" ++ toString uid), uid, uid, "/", "/bin/sh"⟩
  else none

/-- `oem_id_to_group`, with no group file. -/
def oemIdToGroup (gid : ℕ) : Option Group :=
  if isOemId ids before29 gid then some ⟨snprintf kGrpPwdBufferSize ("oem_" ++ toString gid), gid⟩
  else none

/-- `app_id_to_passwd`. -/
def appIdToPasswd (uid : ℕ) : Option Passwd :=
  if uid < aidAppStart || !isValidAppId uid false then none
  else
    let dir := if uid % aidUserOffset < aidAppStart then "/" else "/data"
    some ⟨snprintf kGrpPwdBufferSize (printAppNameFromUid ids uid), uid, uid, dir, "/bin/sh"⟩

/-- `app_id_to_group`. -/
def appIdToGroup (gid : ℕ) : Option Group :=
  if gid < aidAppStart || !isValidAppId gid true then none
  else some ⟨snprintf kGrpPwdBufferSize (printAppNameFromGid ids gid), gid⟩

/-- `getpwuid_internal`. -/
def getpwuidInternal (uid : ℕ) : Option Passwd :=
  match findAndroidIdInfo ids uid with
  | some info => some (androidIinfoToPasswd info)
  | none =>
    match oemIdToPasswd ids before29 uid with
    | some pw => some pw
    | none => appIdToPasswd ids uid

/-- `getpwnam_internal`. -/
def getpwnamInternal (login : String) : Option Passwd :=
  match findAndroidIdInfoByName ids login with
  | some info => some (androidIinfoToPasswd info)
  | none =>
    match oemIdToPasswd ids before29 (oemIdFromName ids before29 login.toList) with
    | some pw => some pw
    | none => appIdToPasswd ids (appIdFromName ids login.toList false)

/-- `getgrgid_internal`. -/
def getgrgidInternal (gid : ℕ) : Option Group :=
  match findAndroidIdInfo ids gid with
  | some info => some (androidIinfoToGroup info)
  | none =>
    match oemIdToGroup ids before29 gid with
    | some gr => some gr
    | none => appIdToGroup ids gid

/-- `getgrnam_internal`. -/
def getgrnamInternal (name : String) : Option Group :=
  match findAndroidIdInfoByName ids name with
  | some info => some (androidIinfoToGroup info)
  | none =>
    match oemIdToGroup ids before29 (oemIdFromName ids before29 name.toList) with
    | some gr => some gr
    | none => appIdToGroup ids (appIdFromName ids name.toList true)

end Bionic.GrpPwd
