import Bionic.GrpPwd.GrpPwd

/-!
# Names and ids of app users

`print_app_name_from_uid` writes a user id of any size, but `app_id_from_name` refuses a user id
above 1000 ("Check that user id won't overflow"). So every app uid of a user above 1000 resolves
to a name that does not resolve back (`getpwnam_rejects_large_userid`): `getpwuid(100110000)` is
`u1001_a0`, and `getpwnam("u1001_a0")` is `NULL`; the same holds for groups.
-/

set_option autoImplicit false
set_option relaxedAutoImplicit false

namespace Bionic.GrpPwd

open Bionic.Lib.Decimal

variable (ids : List AndroidIdInfo) (before29 : Bool)

/-! ## Printed names -/

section Names

theorem length_toString_le {n k : ℕ} (hk : 0 < k) (hn : n < 10 ^ k) : (toString n).length ≤ k := by
  rw [← String.length_toList, Nat.toString_eq_repr, Nat.toList_repr]
  exact (Nat.length_toDigits_le_iff (by decide) hk).mpr hn

theorem snprintf_of_length_lt {bufferlen : ℕ} {s : String} (h : s.length < bufferlen) :
    snprintf bufferlen s = s := by
  rw [snprintf, List.take_of_length_le (by rw [String.length_toList]; omega), String.ofList_toList]

theorem toList_appName (userid k : ℕ) :
    ("u" ++ toString userid ++ "_a" ++ toString k).toList =
      'u' :: (Nat.toDigits 10 userid ++ '_' :: 'a' :: Nat.toDigits 10 k) := by
  simp

end Names

/-! ## Reading a name back -/

section Parse

theorem findAndroidIdInfo_eq_none {id : ℕ} (h : ∀ i ∈ ids, i.aid ≠ id) :
    findAndroidIdInfo ids id = none :=
  List.find?_eq_none.mpr fun i hi ↦ by simpa using h i hi

theorem findAndroidIdInfoByName_eq_none {name : String} (h : ∀ i ∈ ids, i.name ≠ name) :
    findAndroidIdInfoByName ids name = none :=
  List.find?_eq_none.mpr fun i hi ↦ by simpa using h i hi

theorem isOemId_of_le {id : ℕ} (h : aidEverybody ≤ id) : isOemId ids before29 id = false := by
  have h₁ : ¬id < aidEverybody := by omega
  have h₂ : ¬id ≤ aidOemReservedEnd := by simp only [aidEverybody, aidOemReservedEnd] at h ⊢; omega
  have h₃ : ¬id ≤ aidOemReserved2End := by simp only [aidEverybody, aidOemReserved2End] at h ⊢; omega
  simp [isOemId, h₁, h₂, h₃]

theorem isOemId_zero : isOemId ids before29 0 = false := by
  simp [isOemId, aidOemReservedStart, aidOemReserved2Start]

theorem oemIdFromName_u (rest : List Char) : oemIdFromName ids before29 ('u' :: rest) = 0 := by
  simp [oemIdFromName]

/-- **No user id above 1000 is read back**: a name `u<user>…` with `user > 1000` gives `0`,
whatever follows the user id. -/
theorem appIdFromName_of_large_userid {userid : ℕ} {rest : List Char} (isGroup : Bool)
    (huser : 1000 < userid) (hrest : NotDigitHead rest) :
    appIdFromName ids ('u' :: (Nat.toDigits 10 userid ++ rest)) isGroup = 0 := by
  obtain ⟨c, cs, hcs, hc⟩ := toDigits_append_eq_cons userid rest
  have huser' : 1000 < min userid ulongMax := by unfold ulongMax; omega
  unfold appIdFromName
  rw [hcs]
  simp only [hc, if_true]
  rw [← hcs, strtoul_toDigits_append hrest]
  -- whatever the id part reads, the user id check refuses
  split
  · next heq =>
    split
    · next appid «end» _ =>
      simp only [Option.some.injEq, Prod.mk.injEq] at heq
      obtain ⟨rfl, -, -⟩ := heq
      simp [huser']
    · rfl
  · rfl

end Parse

/-! ## The app ids of users above 1000 -/

section LargeUser

theorem appId_mod (userid : ℕ) {k : ℕ} (hk : k ≤ aidAppEnd - aidAppStart) :
    (userid * aidUserOffset + aidAppStart + k) % aidUserOffset = aidAppStart + k := by
  simp only [aidUserOffset, aidAppStart, aidAppEnd] at hk ⊢
  omega

theorem appId_div (userid : ℕ) {k : ℕ} (hk : k ≤ aidAppEnd - aidAppStart) :
    (userid * aidUserOffset + aidAppStart + k) / aidUserOffset = userid := by
  simp only [aidUserOffset, aidAppStart, aidAppEnd] at hk ⊢
  omega

variable {userid k : ℕ}

theorem isValidAppId_app (isGroup : Bool) (hk : k ≤ aidAppEnd - aidAppStart) :
    isValidAppId (userid * aidUserOffset + aidAppStart + k) isGroup = true := by
  have hmod := appId_mod userid hk
  simp only [aidAppStart, aidAppEnd] at hk hmod
  cases isGroup <;>
    simp [isValidAppId, hmod, groupRanges, userRanges, aidOverflowuid, aidAppStart, aidAppEnd,
      aidSharedGidStart, aidCacheGidStart, aidExtGidStart, aidExtCacheGidStart, aidIsolatedStart] <;>
    omega

theorem printAppNameFromUid_app (hk : k ≤ aidAppEnd - aidAppStart) :
    printAppNameFromUid ids (userid * aidUserOffset + aidAppStart + k) =
      "u" ++ toString userid ++ "_a" ++ toString k := by
  have hmod := appId_mod userid hk
  have hdiv := appId_div userid hk
  simp only [aidAppStart, aidAppEnd] at hk hmod hdiv
  simp only [printAppNameFromUid, hmod, hdiv, aidIsolatedStart, aidAppStart]
  simp only [show ¬90000 ≤ 10000 + k by omega, show ¬10000 + k < 10000 by omega, if_false,
    Nat.add_sub_cancel_left]

theorem printAppNameFromGid_app (huser : userid ≠ 0) (hk : k ≤ aidAppEnd - aidAppStart) :
    printAppNameFromGid ids (userid * aidUserOffset + aidAppStart + k) =
      "u" ++ toString userid ++ "_a" ++ toString k := by
  have hmod := appId_mod userid hk
  have hdiv := appId_div userid hk
  simp only [aidAppStart, aidAppEnd] at hk hmod hdiv
  simp only [printAppNameFromGid, hmod, hdiv, aidIsolatedStart, aidAppStart, aidSharedGidStart,
    aidSharedGidEnd, aidExtCacheGidStart, aidExtCacheGidEnd, aidExtGidStart, aidExtGidEnd,
    aidCacheGidStart, aidCacheGidEnd]
  simp only [show ¬90000 ≤ 10000 + k by omega, show ¬40000 ≤ 10000 + k by omega,
    show ¬30000 ≤ 10000 + k by omega, show ¬20000 ≤ 10000 + k by omega,
    show ¬10000 + k < 10000 by omega, huser, false_and, if_false,
    Nat.add_sub_cancel_left]

theorem length_appName_lt (hk : k ≤ aidAppEnd - aidAppStart)
    (hfit : userid * aidUserOffset + aidAppStart + k < 2 ^ 32) :
    ("u" ++ toString userid ++ "_a" ++ toString k).length < kGrpPwdBufferSize := by
  simp only [aidAppStart, aidAppEnd, aidUserOffset] at hk hfit
  have huser := length_toString_le (n := userid) (k := 5) (by decide) (by omega)
  have hk' := length_toString_le (n := k) (k := 4) (by decide) (by omega)
  simp only [String.length_append, kGrpPwdBufferSize]
  have : "u".length = 1 := rfl
  have : "_a".length = 2 := rfl
  omega

/-- **`getpwnam` does not resolve the names `getpwuid` gives app uids of users above 1000**, and
`getgrnam` not those `getgrgid` gives their gids: `u<user>_a<n>` comes back `NULL`. -/
theorem getpwnam_rejects_large_userid (huser : 1000 < userid) (hk : k ≤ aidAppEnd - aidAppStart)
    (hfit : userid * aidUserOffset + aidAppStart + k < 2 ^ 32)
    (haid : ∀ i ∈ ids, i.aid ≠ userid * aidUserOffset + aidAppStart + k)
    (hname : ∀ i ∈ ids, i.name ≠ "u" ++ toString userid ++ "_a" ++ toString k) :
    getpwuidInternal ids before29 (userid * aidUserOffset + aidAppStart + k) =
        some ⟨"u" ++ toString userid ++ "_a" ++ toString k, userid * aidUserOffset + aidAppStart + k,
          userid * aidUserOffset + aidAppStart + k, "/data", "/bin/sh"⟩ ∧
      getpwnamInternal ids before29 ("u" ++ toString userid ++ "_a" ++ toString k) = none ∧
      getgrgidInternal ids before29 (userid * aidUserOffset + aidAppStart + k) =
        some ⟨"u" ++ toString userid ++ "_a" ++ toString k, userid * aidUserOffset + aidAppStart + k⟩ ∧
      getgrnamInternal ids before29 ("u" ++ toString userid ++ "_a" ++ toString k) = none := by
  have hmod := appId_mod userid hk
  have huser₀ : userid ≠ 0 := by omega
  have hlarge : aidEverybody ≤ userid * aidUserOffset + aidAppStart + k := by
    simp only [aidEverybody, aidUserOffset, aidAppStart]
    omega
  have hsmall : ¬userid * aidUserOffset + aidAppStart + k < aidAppStart := by omega
  have hfits := snprintf_of_length_lt (length_appName_lt hk hfit)
  have hnone := findAndroidIdInfo_eq_none ids haid
  have hnoname := findAndroidIdInfoByName_eq_none ids hname
  -- the name read back: user id above 1000
  have hread : ∀ isGroup, appIdFromName ids ("u" ++ toString userid ++ "_a" ++ toString k).toList
      isGroup = 0 := fun isGroup ↦ by
    rw [toList_appName]
    exact appIdFromName_of_large_userid ids isGroup huser (fun c hc ↦ by cases hc; rfl)
  have hoem : oemIdFromName ids before29 ("u" ++ toString userid ++ "_a" ++ toString k).toList = 0 := by
    rw [toList_appName, oemIdFromName_u]
  refine ⟨?_, ?_, ?_, ?_⟩
  · simp only [getpwuidInternal, hnone, oemIdToPasswd, isOemId_of_le ids before29 hlarge,
      appIdToPasswd, hsmall, isValidAppId_app false hk,
      printAppNameFromUid_app ids hk, hfits, hmod]
    simp [aidAppStart]
  · simp only [getpwnamInternal, hnoname, hoem, oemIdToPasswd, isOemId_zero, hread, appIdToPasswd]
    simp [aidAppStart]
  · simp only [getgrgidInternal, hnone, oemIdToGroup, isOemId_of_le ids before29 hlarge,
      appIdToGroup, hsmall, isValidAppId_app true hk,
      printAppNameFromGid_app ids huser₀ hk, hfits]
    simp
  · simp only [getgrnamInternal, hnoname, hoem, oemIdToGroup, isOemId_zero, hread, appIdToGroup]
    simp [aidAppStart]

/-- A few entries of the device's `android_ids`. -/
def someAndroidIds : List AndroidIdInfo :=
  [⟨"root", 0⟩, ⟨"system", aidSystem⟩, ⟨"radio", aidRadio⟩, ⟨"shell", aidShell⟩]

/-- `getpwuid(100110000)` and `getgrgid(100110000)` are `u1001_a0`, which neither `getpwnam` nor
`getgrnam` finds. -/
theorem getpwnam_rejects_large_userid_u1001 :
    getpwuidInternal someAndroidIds false (1001 * aidUserOffset + aidAppStart + 0) =
        some ⟨"u" ++ toString 1001 ++ "_a" ++ toString 0, 1001 * aidUserOffset + aidAppStart + 0,
          1001 * aidUserOffset + aidAppStart + 0, "/data", "/bin/sh"⟩ ∧
      getpwnamInternal someAndroidIds false ("u" ++ toString 1001 ++ "_a" ++ toString 0) = none ∧
      getgrgidInternal someAndroidIds false (1001 * aidUserOffset + aidAppStart + 0) =
        some ⟨"u" ++ toString 1001 ++ "_a" ++ toString 0, 1001 * aidUserOffset + aidAppStart + 0⟩ ∧
      getgrnamInternal someAndroidIds false ("u" ++ toString 1001 ++ "_a" ++ toString 0) = none :=
  getpwnam_rejects_large_userid someAndroidIds false (by decide) (by decide) (by decide)
    (by decide) (by decide)

end LargeUser

end Bionic.GrpPwd
