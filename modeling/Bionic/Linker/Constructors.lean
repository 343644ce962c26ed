import Mathlib.Data.Fintype.Card
import Mathlib.Logic.Relation
import Bionic.Lib.ListOrder
import Mathlib.Algebra.Order.Ring.Nat

/-!
# Constructors and destructors of the loaded libraries

`soinfo::call_constructors` sets `constructors_called` and returns at once when it was set. It then
calls `call_constructors` on each child (the `DT_NEEDED` libraries), runs `DT_INIT` and then
`call_array` over `DT_INIT_ARRAY`; `call_function` skips `nullptr` and `-1`. A constructor may
`dlopen` other libraries, and `dlopen` calls `call_constructors` on the library it loads, so the
calls nest. `call_destructors` runs `DT_FINI_ARRAY` backwards and then `DT_FINI`, for a library
whose `constructors_called` is set.

A run is a list of events: a call of `call_constructors` that sets the flag (`enter`) and its
return (`leave`), and each constructor's start and return. The libraries are a type `α` with their
`soinfo`s; what a constructor does is the libraries it `dlopen`s (`Program.dlopens`), one list for
each constructor of each library, so every behaviour is one of them. A library a constructor
loads is in `Program.soinfo` from the start, unreachable until its `dlopen`. The children lists do
not change: `add_child` is only called on a library while it is being loaded. `fuel` bounds the
depth of the nested calls; one more than the number of libraries is enough
(`callConstructors_good`).

`call_array` computes its bounds in `int` from a `size_t` count, `int end = count`, so with
`2 ^ 32` entries it visits none (`arrayIndices_two_pow_thirtytwo`); where the conversion gives a
negative bound, the loop runs up to `INT_MAX` and then overflows `int`, which C leaves undefined,
and the model stops there. Below `2 ^ 31` entries it visits them in index order
(`arrayIndices_of_lt`).

`Good` is what a run guarantees, and it is kept by concatenation and by a call's bracket: flags
are set exactly for the libraries entered, each entered once and only if its flag was clear; an
entered library's children are flagged when it returns; every event's library is entered; each
entered library's constructors run in order; and a child's constructors return before its
parent's start unless the child is the parent itself or its call is still open around the
parent's call. The last exemption is needed: a constructor that `dlopen`s a library depending on
a later sibling runs that sibling's constructors while its own is still running
(`callConstructors_reentrant_dependency`).
-/

set_option autoImplicit false
set_option relaxedAutoImplicit false

namespace Bionic.Linker.Constructors

open Bionic.Lib.ListOrder

/-! ### The model -/

/-- A constructor of a library: `DT_INIT`, or entry `i` of `DT_INIT_ARRAY`. -/
inductive Slot where
  | init
  | array (i : ℕ)
  deriving DecidableEq, Repr

/-- The events of a run: `call_constructors` on a library setting its flag, and returning; a
constructor starting, and returning. -/
inductive Event (α : Type) where
  | enter (s : α)
  | start (s : α) (slot : Slot)
  | finish (s : α) (slot : Slot)
  | leave (s : α)
  deriving DecidableEq, Repr

/-- What `call_constructors` and `call_destructors` read of a `soinfo`; the arrays are `none`
when their pointer is `nullptr`, and their counts are their lengths. -/
structure Soinfo (α : Type) where
  children : List α
  initFunc : ℕ
  initArray : Option (List ℕ)
  finiArray : Option (List ℕ)
  finiFunc : ℕ

/-- The libraries, the `dlopen`s each constructor makes, and the width of a pointer. -/
structure Program (α : Type) where
  soinfo : α → Soinfo α
  dlopens : α → Slot → List α
  ptrBits : ℕ

variable {α : Type} [DecidableEq α]

/-- `call_function` runs a function other than `nullptr` and `(uintptr_t)-1`. -/
def Program.callable (P : Program α) (function : ℕ) : Bool :=
  function != 0 && function != 2 ^ P.ptrBits - 1

/-- A `size_t` converted to `int`: its low 32 bits, read as a signed number. -/
def toInt (n : ℕ) : ℤ :=
  if n % 2 ^ 32 < 2 ^ 31 then ((n % 2 ^ 32 : ℕ) : ℤ) else ((n % 2 ^ 32 : ℕ) : ℤ) - 2 ^ 32

/-- The indices `call_array` visits for `count` entries: `for (int i = begin; i != end; i += step)`
from `begin = 0`, `end = count`, or backwards from `begin = count - 1` to `end = -1`. A forward loop
whose `end` is negative runs up to `INT_MAX`, where `++i` overflows, which C leaves undefined: the
model stops there. A backward loop whose `begin` is negative first reads before the array: the
model visits nothing. -/
def arrayIndices (count : ℕ) (reverse : Bool) : List ℕ :=
  if reverse then (List.range (toInt (count + 2 ^ 32 - 1) + 1).toNat).reverse
  else if toInt count < 0 then List.range (2 ^ 31)
  else List.range (toInt count).toNat

section Calls

variable (P : Program α) (call : (α → Bool) → α → Option ((α → Bool) × List (Event α)))

/-- Calls of `call` in turn: `for_each` over the children, or the `dlopen`s of a constructor. -/
def callEach : (α → Bool) → List α → Option ((α → Bool) × List (Event α))
  | called, [] => some (called, [])
  | called, x :: xs => do
    let r₁ ← call called x
    let r₂ ← callEach r₁.1 xs
    pure (r₂.1, r₁.2 ++ r₂.2)

/-- `call_function` for constructor `slot` of `s`, with its `dlopen`s made through `call`. -/
def callFunction (s : α) (slot : Slot) (function : ℕ) (called : α → Bool) :
    Option ((α → Bool) × List (Event α)) :=
  if P.callable function then do
    let r ← callEach call called (P.dlopens s slot)
    pure (r.1, .start s slot :: r.2 ++ [.finish s slot])
  else some (called, [])

/-- The loop of `call_array` over the indices it visits. -/
def callSlots (s : α) (functions : List ℕ) :
    (α → Bool) → List ℕ → Option ((α → Bool) × List (Event α))
  | called, [] => some (called, [])
  | called, i :: is => do
    let r₁ ← callFunction P call s (.array i) (functions.getD i 0) called
    let r₂ ← callSlots s functions r₁.1 is
    pure (r₂.1, r₁.2 ++ r₂.2)

/-- `call_array("DT_INIT_ARRAY", init_array_, init_array_count_, false, ...)`. -/
def callArray (s : α) (functions : Option (List ℕ)) (called : α → Bool) :
    Option ((α → Bool) × List (Event α)) :=
  match functions with
  | none => some (called, [])
  | some functions => callSlots P call s functions called (arrayIndices functions.length false)

end Calls

/-- `soinfo::call_constructors` on `s` with the flags `called`: the flags after it and its
events, or `none` when `fuel` runs out. -/
def callConstructors (P : Program α) : ℕ → (α → Bool) → α → Option ((α → Bool) × List (Event α))
  | 0, _, _ => none
  | fuel + 1, called, s =>
    if called s then some (called, [])
    else do
      -- `constructors_called = true` comes before the children
      let r₁ ← callEach (callConstructors P fuel) (Function.update called s true)
        (P.soinfo s).children
      let r₂ ← callFunction P (callConstructors P fuel) s .init (P.soinfo s).initFunc r₁.1
      let r₃ ← callArray P (callConstructors P fuel) s (P.soinfo s).initArray r₂.1
      pure (r₃.1, .enter s :: r₁.2 ++ r₂.2 ++ r₃.2 ++ [.leave s])

/-- `soinfo::call_destructors`: the functions it runs, in order. -/
def callDestructors (P : Program α) (called : α → Bool) (s : α) : List ℕ :=
  if called s then
    let fini := match (P.soinfo s).finiArray with
      | none => []
      | some functions =>
        ((arrayIndices functions.length true).map (functions.getD · 0)).filter P.callable
    fini ++ [(P.soinfo s).finiFunc].filter P.callable
  else []

/-! ### What a run guarantees -/

/-- The library an event belongs to. -/
def Event.lib : Event α → α
  | .enter s | .start s _ | .finish s _ | .leave s => s

/-- The constructor events of `a`: a start (`true`) or a return (`false`) of one of its slots. -/
def Event.ctorOf (a : α) : Event α → Option (Bool × Slot)
  | .start s slot => if s = a then some (true, slot) else none
  | .finish s slot => if s = a then some (false, slot) else none
  | _ => none

/-- The constructors of `a` in the order `call_constructors` runs them, with their functions:
`DT_INIT`, then the entries of `DT_INIT_ARRAY` at the indices `call_array` visits. -/
def Program.ctorSlots (P : Program α) (a : α) : List (Slot × ℕ) :=
  (.init, (P.soinfo a).initFunc) ::
    match (P.soinfo a).initArray with
    | none => []
    | some functions =>
      (arrayIndices functions.length false).map fun i ↦ (.array i, functions.getD i 0)

/-- A start and a return for each slot whose function runs. -/
def Program.slotEvents (P : Program α) (slots : List (Slot × ℕ)) : List (Bool × Slot) :=
  (slots.filter fun p ↦ P.callable p.2).flatMap fun p ↦ [(true, p.1), (false, p.1)]

/-- The constructor events of `a` in a run. -/
def Program.ctorEvents (P : Program α) (a : α) : List (Bool × Slot) := P.slotEvents (P.ctorSlots a)

/-- The events of a run other than the constructor events of `s`. -/
def dropCtors (s : α) (t : List (Event α)) : List (Event α) := t.filter fun e ↦ (e.ctorOf s).isNone

/-- What a run from the flags `c₀` with events `t` to the flags `c₁` guarantees. -/
structure Good (P : Program α) (c₀ : α → Bool) (t : List (Event α)) (c₁ : α → Bool) : Prop where
  flags : ∀ a, c₁ a = true ↔ c₀ a = true ∨ .enter a ∈ t
  fresh : ∀ a, .enter a ∈ t → c₀ a = false
  once : ∀ a, t.count (.enter a) ≤ 1
  lib_entered : ∀ e ∈ t, .enter e.lib ∈ t
  left : ∀ a, .enter a ∈ t → .leave a ∈ t
  closed : ∀ a, .enter a ∈ t → ∀ c ∈ (P.soinfo a).children, c₁ c = true
  ctors : ∀ a, .enter a ∈ t → t.filterMap (Event.ctorOf a) = P.ctorEvents a
  deps : ∀ a, .enter a ∈ t → ∀ c ∈ (P.soinfo a).children, ∀ k k', .start a k ∈ t →
    .finish c k' ∈ t → c = a ∨ Before t (.finish c k') (.start a k) ∨
      (Before t (.enter c) (.enter a) ∧ Before t (.leave a) (.leave c))

section Good

variable {P : Program α} {c₀ c₁ c₂ : α → Bool} {t t₁ t₂ : List (Event α)}

theorem good_nil (P : Program α) (c : α → Bool) : Good P c [] c := by
  refine ⟨fun a ↦ ?_, ?_, ?_, ?_, ?_, ?_, ?_, ?_⟩ <;> simp

theorem Good.mono (h : Good P c₀ t c₁) {a : α} (ha : c₀ a = true) : c₁ a = true :=
  (h.flags a).mpr (.inl ha)

theorem Good.not_entered (h : Good P c₀ t c₁) {a : α} (ha : c₀ a = true) : .enter a ∉ t :=
  fun hin ↦ by simp [h.fresh a hin] at ha

theorem Good.ctorOf_eq_nil (h : Good P c₀ t c₁) {a : α} (ha : .enter a ∉ t) :
    t.filterMap (Event.ctorOf a) = [] := by
  refine List.filterMap_eq_nil_iff.mpr fun e he ↦ ?_
  have hlib := h.lib_entered e he
  cases e with
  | start s slot =>
    have hs : s ≠ a := fun hsa ↦ ha (hsa ▸ hlib)
    simp [Event.ctorOf, hs]
  | finish s slot =>
    have hs : s ≠ a := fun hsa ↦ ha (hsa ▸ hlib)
    simp [Event.ctorOf, hs]
  | enter s => rfl
  | leave s => rfl

theorem Good.dropCtors_eq_self (h : Good P c₀ t c₁) {s : α} (hs : c₀ s = true) :
    dropCtors s t = t := by
  refine List.filter_eq_self.mpr fun e he ↦ ?_
  have hnil := h.ctorOf_eq_nil (h.not_entered hs)
  have : e.ctorOf s = none := List.filterMap_eq_nil_iff.mp hnil e he
  simp [this]

theorem Good.not_entered_of_append (h₁ : Good P c₀ t₁ c₁) (h₂ : Good P c₁ t₂ c₂) {a : α}
    (ha : .enter a ∈ t₁) : .enter a ∉ t₂ :=
  h₂.not_entered ((h₁.flags a).mpr (.inr ha))

theorem Good.append (h₁ : Good P c₀ t₁ c₁) (h₂ : Good P c₁ t₂ c₂) : Good P c₀ (t₁ ++ t₂) c₂ := by
  have hin₂ : ∀ a, .enter a ∈ t₂ → .enter a ∉ t₁ := fun a ha ha₁ ↦
    h₁.not_entered_of_append h₂ ha₁ ha
  refine ⟨fun a ↦ ?_, fun a ha ↦ ?_, fun a ↦ ?_, fun e he ↦ ?_, fun a ha ↦ ?_, fun a ha ↦ ?_,
    fun a ha ↦ ?_, fun a ha c hc k k' hk hk' ↦ ?_⟩
  · rw [h₂.flags, h₁.flags, List.mem_append, or_assoc]
  · rcases List.mem_append.mp ha with ha | ha
    · exact h₁.fresh a ha
    · cases hc : c₀ a
      · rfl
      · exact absurd (h₁.mono hc) (by simp [h₂.fresh a ha])
  · rw [List.count_append]
    by_cases ha : .enter a ∈ t₁
    · have : t₂.count (.enter a) = 0 := List.count_eq_zero.mpr (h₁.not_entered_of_append h₂ ha)
      have := h₁.once a
      omega
    · have : t₁.count (.enter a) = 0 := List.count_eq_zero.mpr ha
      have := h₂.once a
      omega
  · rcases List.mem_append.mp he with he | he
    · exact List.mem_append_left t₂ (h₁.lib_entered e he)
    · exact List.mem_append_right t₁ (h₂.lib_entered e he)
  · rcases List.mem_append.mp ha with ha | ha
    · exact List.mem_append_left t₂ (h₁.left a ha)
    · exact List.mem_append_right t₁ (h₂.left a ha)
  · intro c hc
    rcases List.mem_append.mp ha with ha | ha
    · exact h₂.mono (h₁.closed a ha c hc)
    · exact h₂.closed a ha c hc
  · rw [List.filterMap_append]
    rcases List.mem_append.mp ha with ha | ha
    · rw [h₂.ctorOf_eq_nil (h₁.not_entered_of_append h₂ ha), List.append_nil, h₁.ctors a ha]
    · rw [h₁.ctorOf_eq_nil (hin₂ a ha), List.nil_append, h₂.ctors a ha]
  · rcases List.mem_append.mp ha with ha | ha
    -- `a` in the first run: its children are flagged before the second starts
    · have hk₁ : .start a k ∈ t₁ := by
        rcases List.mem_append.mp hk with hk | hk
        · exact hk
        · exact absurd (h₂.lib_entered _ hk) (h₁.not_entered_of_append h₂ ha)
      have hk'₁ : .finish c k' ∈ t₁ := by
        rcases List.mem_append.mp hk' with hk' | hk'
        · exact hk'
        · exact absurd (h₂.lib_entered _ hk') (h₂.not_entered (h₁.closed a ha c hc))
      rcases h₁.deps a ha c hc k k' hk₁ hk'₁ with hca | hbefore | ⟨henter, hleave⟩
      · exact .inl hca
      · exact .inr (.inl (hbefore.append_right t₂))
      · exact .inr (.inr ⟨henter.append_right t₂, hleave.append_right t₂⟩)
    · have hk₂ : .start a k ∈ t₂ := by
        rcases List.mem_append.mp hk with hk | hk
        · exact absurd (h₁.lib_entered _ hk) (hin₂ a ha)
        · exact hk
      rcases List.mem_append.mp hk' with hk' | hk'
      · exact .inr (.inl (before_append_of_mem hk' hk₂))
      · rcases h₂.deps a ha c hc k k' hk₂ hk' with hca | hbefore | ⟨henter, hleave⟩
        · exact .inl hca
        · exact .inr (.inl (hbefore.append_left t₁))
        · exact .inr (.inr ⟨henter.append_left t₁, hleave.append_left t₁⟩)

theorem mem_dropCtors {s : α} {e : Event α} :
    e ∈ dropCtors s t ↔ e ∈ t ∧ e.ctorOf s = none := by
  simp [dropCtors]

theorem Event.lib_of_ctorOf {s : α} {e : Event α} (he : e.ctorOf s ≠ none) : e.lib = s := by
  cases e with
  | start x slot =>
    by_cases hx : x = s
    · exact hx
    · simp [Event.ctorOf, hx] at he
  | finish x slot =>
    by_cases hx : x = s
    · exact hx
    · simp [Event.ctorOf, hx] at he
  | enter x => simp [Event.ctorOf] at he
  | leave x => simp [Event.ctorOf] at he

theorem filterMap_ctorOf_dropCtors {a s : α} (hne : a ≠ s) (t : List (Event α)) :
    (dropCtors s t).filterMap (Event.ctorOf a) = t.filterMap (Event.ctorOf a) := by
  induction t with
  | nil => rfl
  | cons e t ih =>
    by_cases he : e.ctorOf s = none
    · simp [dropCtors, he] at ih ⊢
      rw [List.filterMap_cons, List.filterMap_cons, ih]
    · have hlib := Event.lib_of_ctorOf he
      have ha : e.ctorOf a = none := by
        by_contra h
        exact hne ((Event.lib_of_ctorOf h).symm.trans hlib)
      simp [dropCtors, he] at ih ⊢
      simp [ha, ih]

/-- A call that sets the flag of `s`: the calls on its children, then its constructors and the
calls they make, between its `enter` and its `leave`. -/
theorem Good.call {c : α → Bool} {s : α} (hs : c s = false) {t₁ C : List (Event α)}
    (h₁ : Good P (Function.update c s true) t₁ c₁)
    (hchildren : ∀ x ∈ (P.soinfo s).children, c₁ x = true)
    (h₂ : Good P c₁ (dropCtors s C) c₂) (hC : C.filterMap (Event.ctorOf s) = P.ctorEvents s) :
    Good P c (.enter s :: t₁ ++ C ++ [.leave s]) c₂ := by
  have hc₁s : c₁ s = true := h₁.mono (by simp)
  have hs₁ : .enter s ∉ t₁ := h₁.not_entered (by simp)
  have hsD : .enter s ∉ dropCtors s C := h₂.not_entered hc₁s
  -- an `enter` or `leave` event is no constructor event, so it is kept by `dropCtors`
  have henterC : ∀ a, .enter a ∈ C ↔ .enter a ∈ dropCtors s C := fun a ↦ by
    simp [mem_dropCtors, Event.ctorOf]
  have hleaveC : ∀ a, .leave a ∈ dropCtors s C → .leave a ∈ C := fun a h ↦
    (mem_dropCtors.mp h).1
  have hmem : ∀ e, e ∈ .enter s :: t₁ ++ C ++ [.leave s] ↔
      e = .enter s ∨ e ∈ t₁ ∨ e ∈ C ∨ e = .leave s := fun e ↦ by
    simp
  -- the entered libraries other than `s`: in the children's calls, or in the constructors' calls
  have hent : ∀ a, .enter a ∈ .enter s :: t₁ ++ C ++ [.leave s] →
      a = s ∨ .enter a ∈ t₁ ∨ .enter a ∈ dropCtors s C := fun a ha ↦ by
    rcases (hmem _).mp ha with ha | ha | ha | ha
    · exact .inl (Event.enter.inj ha)
    · exact .inr (.inl ha)
    · exact .inr (.inr ((henterC a).mp ha))
    · cases ha
  have hflag : ∀ a, a ≠ s → Function.update c s true a = c a := fun a ha ↦
    Function.update_of_ne ha _ _
  refine ⟨fun a ↦ ?_, fun a ha ↦ ?_, fun a ↦ ?_, fun e he ↦ ?_, fun a ha ↦ ?_, fun a ha ↦ ?_,
    fun a ha ↦ ?_, fun a ha x hx k k' hk hk' ↦ ?_⟩
  · rw [h₂.flags, h₁.flags, hmem, ← henterC]
    by_cases has : a = s
    · subst has
      simp
    · simp only [hflag a has, Event.enter.injEq, has, reduceCtorEq, false_or, or_false]
      tauto
  · rcases hent a ha with rfl | ha | ha
    · exact hs
    · have := h₁.fresh a ha
      by_cases has : a = s
      · subst has
        simp at this
      · rwa [hflag a has] at this
    · have h₁a := h₂.fresh a ha
      by_cases has : a = s
      · subst has
        simp [hc₁s] at h₁a
      · cases hca : c a
        · rfl
        · exact absurd (h₁.mono (by rw [hflag a has]; exact hca)) (by simp [h₁a])
  · have hcountC : C.count (.enter a) = (dropCtors s C).count (.enter a) := by
      rw [dropCtors, List.count_filter (by simp [Event.ctorOf])]
    simp only [List.cons_append, List.count_cons, List.count_append, List.count_nil, hcountC]
    by_cases has : a = s
    · subst has
      rw [List.count_eq_zero.mpr hs₁, List.count_eq_zero.mpr hsD]
      simp
    · have hne : (Event.enter s == Event.enter a) = false := by simp [Ne.symm has]
      have hne' : (Event.leave s == Event.enter a) = false := by simp
      rw [hne, hne']
      by_cases ha : .enter a ∈ t₁
      · have := List.count_eq_zero.mpr (h₁.not_entered_of_append h₂ ha)
        have := h₁.once a
        simp only [Bool.false_eq_true, if_false]
        omega
      · have := List.count_eq_zero.mpr ha
        have := h₂.once a
        simp only [Bool.false_eq_true, if_false]
        omega
  · rcases (hmem e).mp he with rfl | he | he | rfl
    · simp [Event.lib]
    · exact (hmem _).mpr (.inr (.inl (h₁.lib_entered e he)))
    · by_cases hce : e.ctorOf s = none
      · have := h₂.lib_entered e (mem_dropCtors.mpr ⟨he, hce⟩)
        exact (hmem _).mpr (.inr (.inr (.inl (mem_dropCtors.mp this).1)))
      · rw [Event.lib_of_ctorOf hce]
        simp
    · simp [Event.lib]
  · rcases hent a ha with rfl | ha | ha
    · simp
    · exact (hmem _).mpr (.inr (.inl (h₁.left a ha)))
    · exact (hmem _).mpr (.inr (.inr (.inl (hleaveC a (h₂.left a ha)))))
  · intro x hx
    rcases hent a ha with rfl | ha | ha
    · exact h₂.mono (hchildren x hx)
    · exact h₂.mono (h₁.closed a ha x hx)
    · exact h₂.closed a ha x hx
  · simp only [List.cons_append, List.filterMap_cons, List.filterMap_append]
    by_cases has : a = s
    · subst has
      rw [h₁.ctorOf_eq_nil hs₁, hC]
      simp [Event.ctorOf]
    · rw [← filterMap_ctorOf_dropCtors has C]
      have hnone : (Event.enter s).ctorOf a = none := rfl
      have hnone' : (Event.leave s).ctorOf a = none := rfl
      rw [hnone, hnone']
      rcases hent a ha with rfl | ha | ha
      · exact absurd rfl has
      · rw [h₂.ctorOf_eq_nil (h₁.not_entered_of_append h₂ ha), h₁.ctors a ha]
        simp
      · rw [h₁.ctorOf_eq_nil fun ha₁ ↦ h₁.not_entered_of_append h₂ ha₁ ha, h₂.ctors a ha]
        simp
  · -- the order of events across the parts of the bracket
    have hliftT₁ : ∀ {u v}, Before t₁ u v → Before (.enter s :: t₁ ++ C ++ [.leave s]) u v :=
      fun h ↦ ((h.cons _).append_right C).append_right _
    have hliftD : ∀ {u v}, Before (dropCtors s C) u v →
        Before (.enter s :: t₁ ++ C ++ [.leave s]) u v :=
      fun h ↦ ((Before.of_filter h).append_left _).append_right _
    have ht₁C : ∀ {u v}, u ∈ t₁ → v ∈ C → Before (.enter s :: t₁ ++ C ++ [.leave s]) u v :=
      fun hu hv ↦ (before_append_of_mem (List.mem_cons_of_mem _ hu) hv).append_right _
    have henterFirst : ∀ {v}, v ∈ t₁ ∨ v ∈ C →
        Before (.enter s :: t₁ ++ C ++ [.leave s]) (.enter s) v := fun hv ↦
      ⟨[.enter s], t₁ ++ C ++ [.leave s], by simp, by simp, by rcases hv with hv | hv <;> simp [hv]⟩
    have hleaveLast : ∀ {u}, u ∈ t₁ ∨ u ∈ C →
        Before (.enter s :: t₁ ++ C ++ [.leave s]) u (.leave s) := fun hu ↦
      ⟨.enter s :: t₁ ++ C, [.leave s], rfl, by rcases hu with hu | hu <;> simp [hu], by simp⟩
    -- a constructor event of a library other than `s` in `C` is one of `dropCtors s C`
    have hD : ∀ {e}, e ∈ C → e.lib ≠ s → e ∈ dropCtors s C := fun he hlib ↦
      mem_dropCtors.mpr ⟨he, by by_contra h; exact hlib (Event.lib_of_ctorOf h)⟩
    have hk₀ : .start a k ∈ t₁ ∨ .start a k ∈ C := by
      rcases (hmem _).mp hk with h | h | h | h
      · cases h
      · exact .inl h
      · exact .inr h
      · cases h
    have hk'₀ : .finish x k' ∈ t₁ ∨ .finish x k' ∈ C := by
      rcases (hmem _).mp hk' with h | h | h | h
      · cases h
      · exact .inl h
      · exact .inr h
      · cases h
    rcases hent a ha with rfl | ha₁ | haD
    · -- the constructors of `s` start after its children's calls
      have hkC : .start a k ∈ C := hk₀.resolve_left fun h ↦ hs₁ (h₁.lib_entered _ h)
      by_cases hxa : x = a
      · exact .inl hxa
      rcases hk'₀ with hk' | hk'
      · exact .inr (.inl (ht₁C hk' hkC))
      · exact absurd (h₂.lib_entered _ (hD hk' hxa)) (h₂.not_entered (hchildren x hx))
    · have has : a ≠ s := fun h ↦ hs₁ (h ▸ ha₁)
      have hk₁ : .start a k ∈ t₁ := hk₀.resolve_right fun h ↦
        h₁.not_entered_of_append h₂ ha₁ (h₂.lib_entered _ (hD h has))
      by_cases hxs : x = s
      · rw [hxs]
        exact .inr (.inr ⟨henterFirst (.inl ha₁), hleaveLast (.inl (h₁.left a ha₁))⟩)
      have hk'₁ : .finish x k' ∈ t₁ := hk'₀.resolve_right fun h ↦
        h₂.not_entered (h₁.closed a ha₁ x hx) (h₂.lib_entered _ (hD h hxs))
      rcases h₁.deps a ha₁ x hx k k' hk₁ hk'₁ with hxa | hbefore | ⟨henter, hleave⟩
      · exact .inl hxa
      · exact .inr (.inl (hliftT₁ hbefore))
      · exact .inr (.inr ⟨hliftT₁ henter, hliftT₁ hleave⟩)
    · have has : a ≠ s := fun h ↦ hsD (h ▸ haD)
      have hkD : .start a k ∈ dropCtors s C := by
        refine hD (hk₀.resolve_left fun h ↦ ?_) has
        exact h₁.not_entered_of_append h₂ (h₁.lib_entered _ h) haD
      by_cases hxs : x = s
      · rw [hxs]
        exact .inr (.inr ⟨henterFirst (.inr ((henterC a).mpr haD)),
          hleaveLast (.inr (hleaveC a (h₂.left a haD)))⟩)
      rcases hk'₀ with hk' | hk'
      · exact .inr (.inl (ht₁C hk' (mem_dropCtors.mp hkD).1))
      · rcases h₂.deps a haD x hx k k' hkD (hD hk' hxs) with hxa | hbefore | ⟨henter, hleave⟩
        · exact .inl hxa
        · exact .inr (.inl (hliftD hbefore))
        · exact .inr (.inr ⟨hliftD henter, hliftD hleave⟩)

end Good

omit [DecidableEq α] in
theorem slotEvents_append (P : Program α) (l₁ l₂ : List (Slot × ℕ)) :
    P.slotEvents (l₁ ++ l₂) = P.slotEvents l₁ ++ P.slotEvents l₂ := by
  simp [Program.slotEvents, List.filter_append, List.flatMap_append]

theorem dropCtors_append (s : α) (t₁ t₂ : List (Event α)) :
    dropCtors s (t₁ ++ t₂) = dropCtors s t₁ ++ dropCtors s t₂ :=
  List.filter_append t₁ t₂

/-! ### Every call returns, with a good run -/

section Spec

variable [Fintype α] {P : Program α}

/-- The number of libraries whose flag is clear. -/
def unsetCount (c : α → Bool) : ℕ := (Finset.univ.filter fun a ↦ c a = false).card

theorem Good.unsetCount_le {c₀ c₁ : α → Bool} {t : List (Event α)} (h : Good P c₀ t c₁) :
    unsetCount c₁ ≤ unsetCount c₀ := by
  refine Finset.card_le_card fun a ha ↦ ?_
  simp only [Finset.mem_filter, Finset.mem_univ, true_and] at ha ⊢
  cases hc : c₀ a
  · rfl
  · simp [h.mono hc] at ha

theorem unsetCount_update_lt {c : α → Bool} {s : α} (hs : c s = false) :
    unsetCount (Function.update c s true) < unsetCount c := by
  refine Finset.card_lt_card ⟨fun a ha ↦ ?_, fun hsub ↦ ?_⟩
  · simp only [Finset.mem_filter, Finset.mem_univ, true_and] at ha ⊢
    by_cases has : a = s
    · subst has
      simp at ha
    · rwa [Function.update_of_ne has] at ha
  · have := hsub (by simpa using hs : s ∈ Finset.univ.filter fun a ↦ c a = false)
    simp at this

variable (P) in
/-- What `call` guarantees from flags with fewer than `n` clear: it returns, with a good run that
leaves the flag of its library set. -/
def CallSpec (n : ℕ) (call : (α → Bool) → α → Option ((α → Bool) × List (Event α))) : Prop :=
  ∀ c x, unsetCount c < n → ∃ c' t, call c x = some (c', t) ∧ Good P c t c' ∧ c' x = true

variable {n : ℕ} {call : (α → Bool) → α → Option ((α → Bool) × List (Event α))}

theorem callEach_spec (hcall : CallSpec P n call) (xs : List α) :
    ∀ c, unsetCount c < n → ∃ c' t, callEach call c xs = some (c', t) ∧ Good P c t c' ∧
      ∀ x ∈ xs, c' x = true := by
  induction xs with
  | nil => exact fun c _ ↦ ⟨c, [], rfl, good_nil P c, by simp⟩
  | cons x xs ih =>
    intro c hc
    obtain ⟨c₁, t₁, heq₁, h₁, hx⟩ := hcall c x hc
    obtain ⟨c₂, t₂, heq₂, h₂, hxs⟩ := ih c₁ (Nat.lt_of_le_of_lt h₁.unsetCount_le hc)
    refine ⟨c₂, t₁ ++ t₂, by simp [callEach, heq₁, heq₂], h₁.append h₂, ?_⟩
    intro y hy
    rcases List.mem_cons.mp hy with rfl | hy
    · exact h₂.mono hx
    · exact hxs y hy

/-- A constructor of `s`, run while the flag of `s` is set: the run without its own start and
return is good, and those are the two events of its slot when its function runs. -/
theorem callFunction_spec (hcall : CallSpec P n call) {s : α} (slot : Slot) (function : ℕ)
    {c : α → Bool} (hs : c s = true) (hc : unsetCount c < n) :
    ∃ c' T, callFunction P call s slot function c = some (c', T) ∧ Good P c (dropCtors s T) c' ∧
      T.filterMap (Event.ctorOf s) = P.slotEvents [(slot, function)] := by
  by_cases hf : P.callable function = true
  · obtain ⟨c', u, hequ, hu, -⟩ := callEach_spec hcall (P.dlopens s slot) c hc
    refine ⟨c', .start s slot :: u ++ [.finish s slot], by simp [callFunction, hf, hequ], ?_, ?_⟩
    · have hdrop : dropCtors s (.start s slot :: u ++ [.finish s slot]) = u := by
        rw [dropCtors_append, dropCtors, List.filter_cons, if_neg (by simp [Event.ctorOf]),
          ← dropCtors, hu.dropCtors_eq_self hs]
        simp [dropCtors, Event.ctorOf]
      rw [hdrop]
      exact hu
    · simp [Program.slotEvents, hf, List.filterMap_append, hu.ctorOf_eq_nil (hu.not_entered hs),
        Event.ctorOf]
  · refine ⟨c, [], by simp [callFunction, hf], good_nil P c, ?_⟩
    simp [Program.slotEvents, hf]

theorem callSlots_spec (hcall : CallSpec P n call) {s : α} (functions : List ℕ) (is : List ℕ) :
    ∀ c, c s = true → unsetCount c < n → ∃ c' T, callSlots P call s functions c is = some (c', T) ∧
      Good P c (dropCtors s T) c' ∧
      T.filterMap (Event.ctorOf s) = P.slotEvents (is.map fun i ↦ (.array i, functions.getD i 0)) := by
  induction is with
  | nil => exact fun c _ _ ↦ ⟨c, [], rfl, good_nil P c, by simp [Program.slotEvents]⟩
  | cons i is ih =>
    intro c hs hc
    obtain ⟨c₁, T₁, heq₁, h₁, hT₁⟩ := callFunction_spec hcall (.array i) (functions.getD i 0) hs hc
    obtain ⟨c₂, T₂, heq₂, h₂, hT₂⟩ :=
      ih c₁ (h₁.mono hs) (Nat.lt_of_le_of_lt h₁.unsetCount_le hc)
    refine ⟨c₂, T₁ ++ T₂, ?_, ?_, ?_⟩
    · rw [callSlots, heq₁]
      simp [heq₂]
    · rw [dropCtors_append]
      exact h₁.append h₂
    · rw [List.filterMap_append, hT₁, hT₂, List.map_cons, ← slotEvents_append, List.singleton_append]

theorem callArray_spec (hcall : CallSpec P n call) {s : α} (functions : Option (List ℕ))
    {c : α → Bool} (hs : c s = true) (hc : unsetCount c < n) :
    ∃ c' T, callArray P call s functions c = some (c', T) ∧ Good P c (dropCtors s T) c' ∧
      T.filterMap (Event.ctorOf s) = P.slotEvents (match functions with
        | none => []
        | some functions =>
          (arrayIndices functions.length false).map fun i ↦ (.array i, functions.getD i 0)) := by
  cases functions with
  | none => exact ⟨c, [], rfl, good_nil P c, by simp [Program.slotEvents]⟩
  | some functions => exact callSlots_spec hcall functions _ c hs hc

variable (P) in
/-- `call_constructors` returns when `fuel` exceeds the number of clear flags, with a good run that
leaves the library's flag set. -/
theorem callConstructors_good (fuel : ℕ) : CallSpec P fuel (callConstructors P fuel) := by
  induction fuel with
  | zero => exact fun c x hc ↦ absurd hc (Nat.not_lt_zero _)
  | succ fuel ih =>
    intro c s hc
    by_cases hs : c s = true
    · exact ⟨c, [], by simp [callConstructors, hs], good_nil P c, hs⟩
    have hs' : c s = false := by simpa using hs
    have hlt : unsetCount (Function.update c s true) < fuel := by
      have := unsetCount_update_lt hs'
      omega
    -- the children, then `DT_INIT`, then `DT_INIT_ARRAY`
    obtain ⟨c₁, t₁, heq₁, h₁, hchildren⟩ :=
      callEach_spec ih (P.soinfo s).children (Function.update c s true) hlt
    have hc₁s : c₁ s = true := h₁.mono (by simp)
    have hlt₁ : unsetCount c₁ < fuel := Nat.lt_of_le_of_lt h₁.unsetCount_le hlt
    obtain ⟨c₂, T₂, heq₂, h₂, hT₂⟩ := callFunction_spec ih .init (P.soinfo s).initFunc hc₁s hlt₁
    obtain ⟨c₃, T₃, heq₃, h₃, hT₃⟩ := callArray_spec ih (P.soinfo s).initArray (h₂.mono hc₁s)
      (Nat.lt_of_le_of_lt h₂.unsetCount_le hlt₁)
    have hgood : Good P c₁ (dropCtors s (T₂ ++ T₃)) c₃ := by
      rw [dropCtors_append]
      exact h₂.append h₃
    have hctors : (T₂ ++ T₃).filterMap (Event.ctorOf s) = P.ctorEvents s := by
      rw [List.filterMap_append, hT₂, hT₃, ← slotEvents_append, List.singleton_append]
      rfl
    refine ⟨c₃, .enter s :: t₁ ++ T₂ ++ T₃ ++ [.leave s], ?_, ?_, h₃.mono (h₂.mono hc₁s)⟩
    · simp [callConstructors, hs', heq₁, heq₂, heq₃]
    · have := Good.call hs' h₁ hchildren hgood hctors
      simpa only [List.append_assoc] using this

end Spec

/-! ### The bounds of `call_array` -/

theorem toInt_of_lt {n : ℕ} (h : n < 2 ^ 31) : toInt n = n := by
  have hmod : n % 2 ^ 32 = n := Nat.mod_eq_of_lt (by omega)
  rw [toInt, hmod, if_pos h]

theorem arrayIndices_of_lt {count : ℕ} (h : count < 2 ^ 31) :
    arrayIndices count false = List.range count ∧
      arrayIndices count true = (List.range count).reverse := by
  refine ⟨by simp [arrayIndices, toInt_of_lt h], ?_⟩
  rcases Nat.eq_zero_or_pos count with rfl | hpos
  · simp [arrayIndices, toInt]
  · have hmod : (count + 2 ^ 32 - 1) % 2 ^ 32 = count - 1 := by omega
    have hbegin : toInt (count + 2 ^ 32 - 1) = ((count - 1 : ℕ) : ℤ) := by
      simp only [toInt, hmod]
      rw [if_pos (by omega)]
    have hend : (((count - 1 : ℕ) : ℤ) + 1).toNat = count := by omega
    unfold arrayIndices
    rw [if_pos rfl, hbegin, hend]

theorem arrayIndices_two_pow_thirtytwo : arrayIndices (2 ^ 32) false = [] := by
  simp [arrayIndices, toInt]

/-! ### The constructors and destructors a library runs -/

/-- `DT_INIT`, then the entries of `DT_INIT_ARRAY` in index order, with their functions. -/
def Program.initSlots (P : Program α) (a : α) : List (Slot × ℕ) :=
  (.init, (P.soinfo a).initFunc) ::
    match (P.soinfo a).initArray with
    | none => []
    | some functions => (List.range functions.length).map fun i ↦ (.array i, functions.getD i 0)

/-- The entries of `DT_FINI_ARRAY` in reverse index order, then `DT_FINI`. -/
def Program.finiFunctions (P : Program α) (a : α) : List ℕ :=
  (match (P.soinfo a).finiArray with
    | none => []
    | some functions => (List.range functions.length).reverse.map (functions.getD · 0)) ++
    [(P.soinfo a).finiFunc]

omit [DecidableEq α] in
theorem ctorSlots_eq_initSlots (P : Program α) {a : α}
    (hcount : ∀ functions, (P.soinfo a).initArray = some functions → functions.length < 2 ^ 31) :
    P.ctorSlots a = P.initSlots a := by
  unfold Program.ctorSlots Program.initSlots
  cases harray : (P.soinfo a).initArray with
  | none => rfl
  | some functions => simp [(arrayIndices_of_lt (hcount functions harray)).1]

omit [DecidableEq α] in
theorem callDestructors_eq (P : Program α) (called : α → Bool) {a : α}
    (hcount : ∀ functions, (P.soinfo a).finiArray = some functions → functions.length < 2 ^ 31) :
    callDestructors P called a = if called a then (P.finiFunctions a).filter P.callable else [] := by
  unfold callDestructors Program.finiFunctions
  cases harray : (P.soinfo a).finiArray with
  | none => simp
  | some functions => simp [(arrayIndices_of_lt (hcount functions harray)).2, List.filter_append]

/-! ### `call_constructors` on a root -/

/-- The libraries reached from `root` through clear flags. -/
inductive Reach (P : Program α) (called : α → Bool) (root : α) : α → Prop
  | root (h : called root = false) : Reach P called root root
  | child {a c : α} (ha : Reach P called root a) (hc : c ∈ (P.soinfo a).children)
      (hclear : called c = false) : Reach P called root c

theorem Good.enter_of_reach {P : Program α} {c₀ c₁ : α → Bool} {t : List (Event α)}
    (h : Good P c₀ t c₁) {root : α} (hroot : c₀ root = false → .enter root ∈ t) {a : α}
    (ha : Reach P c₀ root a) : .enter a ∈ t := by
  induction ha with
  | root hclear => exact hroot hclear
  | child _ hc hclear ih =>
    rcases (h.flags _).mp (h.closed _ ih _ hc) with hset | hin
    · simp [hclear] at hset
    · exact hin

/-- `call_constructors` on `root`, with a library's constructors and `dlopen`s of any kind: it
returns; it enters a library only if its flag was clear, and once; it enters every library
reached from `root` through clear flags, and a library whose flag was set runs no constructor; an
entered library runs `DT_INIT` and then the entries of `DT_INIT_ARRAY` in index order (below
`2 ^ 31` entries), each that is not `nullptr` or `-1` once; a child's constructors return before
its parent's start, unless the child is the parent or its call is open around the parent's.
`call_destructors` runs `DT_FINI_ARRAY` backwards and then `DT_FINI`, and only for a library whose
flag is set. -/
theorem callConstructors_spec [Fintype α] (P : Program α) (called : α → Bool) (root : α) :
    ∃ called' trace, callConstructors P (Fintype.card α + 1) called root = some (called', trace) ∧
      (∀ a, .enter a ∈ trace → called a = false) ∧
      (∀ a, trace.count (.enter a) ≤ 1) ∧
      (∀ a, Reach P called root a → .enter a ∈ trace) ∧
      (∀ a, called a = true → trace.filterMap (Event.ctorOf a) = []) ∧
      (∀ a, .enter a ∈ trace →
        (∀ functions, (P.soinfo a).initArray = some functions → functions.length < 2 ^ 31) →
        trace.filterMap (Event.ctorOf a) = P.slotEvents (P.initSlots a)) ∧
      (∀ a, .enter a ∈ trace → ∀ c ∈ (P.soinfo a).children, ∀ k k', .start a k ∈ trace →
        .finish c k' ∈ trace → c = a ∨ Before trace (.finish c k') (.start a k) ∨
          (Before trace (.enter c) (.enter a) ∧ Before trace (.leave a) (.leave c))) ∧
      (∀ (flags : α → Bool) a,
        (∀ functions, (P.soinfo a).finiArray = some functions → functions.length < 2 ^ 31) →
        callDestructors P flags a = if flags a then (P.finiFunctions a).filter P.callable else []) := by
  have hfuel : unsetCount called < Fintype.card α + 1 :=
    Nat.lt_succ_of_le (Finset.card_le_univ _)
  obtain ⟨called', trace, hrun, hgood, hroot⟩ :=
    callConstructors_good P (Fintype.card α + 1) called root hfuel
  have hentered : called root = false → .enter root ∈ trace := fun hclear ↦ by
    rcases (hgood.flags root).mp hroot with hset | hin
    · simp [hclear] at hset
    · exact hin
  refine ⟨called', trace, hrun, hgood.fresh, hgood.once, fun a ha ↦ hgood.enter_of_reach hentered ha,
    fun a ha ↦ hgood.ctorOf_eq_nil (hgood.not_entered ha), fun a ha hcount ↦ ?_, hgood.deps,
    fun flags a hcount ↦ callDestructors_eq P flags hcount⟩
  rw [hgood.ctors a ha, Program.ctorEvents, ctorSlots_eq_initSlots P hcount]

/-! ### A constructor that `dlopen`s a library needing a later sibling -/

/-- The root needs `1` and `2`, and `2` needs `1`; the `DT_INIT` of `1` `dlopen`s `3`, which needs
`2`. -/
def reentrant : Program (Fin 4) :=
  let lib (k : ℕ) (h : k < 4) : Fin 4 := ⟨k, h⟩
  { soinfo := fun
      | 0 => ⟨[lib 1 (by decide), lib 2 (by decide)], 0, none, none, 0⟩
      | 1 => ⟨[], 0x1000, none, none, 0⟩
      | 2 => ⟨[lib 1 (by decide)], 0x2000, none, none, 0⟩
      | 3 => ⟨[lib 2 (by decide)], 0, none, none, 0⟩
    dlopens := fun s slot ↦ if s.val = 1 ∧ slot = .init then [lib 3 (by decide)] else []
    ptrBits := 64 }

/-- `2` is reached from the root and needs `1`, which needs nothing, so the edge is on no cycle;
yet the `DT_INIT` of `2` starts inside the `DT_INIT` of `1`, before it returns. -/
theorem callConstructors_reentrant_dependency :
    ∃ trace, (callConstructors reentrant 5 (fun _ ↦ false) 0).map Prod.snd = some trace ∧
      Reach reentrant (fun _ ↦ false) 0 2 ∧ (1 : Fin 4) ∈ (reentrant.soinfo 2).children ∧
      ¬ Relation.ReflTransGen (fun x y ↦ y ∈ (reentrant.soinfo x).children) 1 2 ∧
      .start 2 .init ∈ trace ∧ .finish 1 .init ∈ trace ∧
      ¬ Before trace (.finish 1 .init) (.start 2 .init) := by
  refine ⟨[.enter 0, .enter 1, .start 1 .init, .enter 3, .enter 2, .start 2 .init, .finish 2 .init,
    .leave 2, .leave 3, .finish 1 .init, .leave 1, .leave 0], by decide,
    .child (.root rfl) (by decide) rfl, by decide, ?_, by decide, by decide, by decide⟩
  intro hreach
  rcases Relation.ReflTransGen.cases_head hreach with h | ⟨y, hy, -⟩
  · exact absurd h (by decide)
  · simp [reentrant] at hy

end Bionic.Linker.Constructors
