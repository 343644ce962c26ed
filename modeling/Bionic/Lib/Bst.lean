import Mathlib.Data.List.Basic

/-!
# Binary search trees over a comparator

A `Tree` is a binary tree whose nodes carry a key and a value, searched with a comparator
`cmp : κ → κ → Ordering`: smaller keys to the left, greater to the right. `modifyAt` is the
search that a mutable tree does in place: it walks to the node of a key, makes that node at the
empty place where the search ends when `create` allows it, and hands the node's value to `f`,
threading a state through both (an allocator, say). `modifyAt_of_lookup_eq_some` and
`modifyAt_of_lookup_eq_none` say it is an `insert` of what `f` returns, or nothing; the `lookup`
and `Ordered` lemmas about `insert` then say everything about it.

`Ordered` says the keys are strictly increasing in order (`toList`); with a transitive, lawful
comparator a search then finds exactly the entries of the tree (`lookup_eq_some_iff`).
-/

set_option autoImplicit false
set_option relaxedAutoImplicit false

namespace Bionic.Lib.Bst

/-- A binary tree whose nodes carry a key and a value. -/
inductive Tree (κ α : Type) where
  | nil
  | node (left : Tree κ α) (key : κ) (value : α) (right : Tree κ α)
  deriving Repr, DecidableEq

namespace Tree

variable {κ α β σ : Type}

/-- The entries in order: the left subtree, the node, then the right subtree. -/
def toList : Tree κ α → List (κ × α)
  | nil => []
  | node left key value right => left.toList ++ (key, value) :: right.toList

/-- The keys in order. -/
def keys (t : Tree κ α) : List κ := t.toList.map Prod.fst

@[simp] theorem keys_nil : (nil : Tree κ α).keys = [] := rfl

@[simp] theorem keys_node (left : Tree κ α) (key : κ) (value : α) (right : Tree κ α) :
    (node left key value right).keys = left.keys ++ key :: right.keys := by
  simp [keys, toList]

section Cmp

variable (cmp : κ → κ → Ordering)

/-- The value at the node whose key compares equal to `k`, found by search. -/
def lookup (k : κ) : Tree κ α → Option α
  | nil => none
  | node left key value right =>
    match cmp k key with
    | .lt => lookup k left
    | .eq => some value
    | .gt => lookup k right

/-- The tree with the value `a` at key `k`: the node of `k` gets it, or a new leaf where the
search for `k` ends. -/
def insert (k : κ) (a : α) : Tree κ α → Tree κ α
  | nil => node nil k a nil
  | node left key value right =>
    match cmp k key with
    | .lt => node (insert k a left) key value right
    | .eq => node left key a right
    | .gt => node left key value (insert k a right)

/-- The search for `k` that goes on with `f` at its node: `f` gets the node's value and the
state, and what it returns replaces the value. Where the search ends at an empty place, `create`
gives the new node's value, or `none` to stop with nothing changed. -/
def modifyAt (k : κ) (create : σ → Option (α × σ)) (f : α → σ → α × Option β × σ) :
    Tree κ α → σ → Tree κ α × Option β × σ
  | nil, s =>
    match create s with
    | none => (nil, none, s)
    | some (a, s) =>
      let (a, b, s) := f a s
      (node nil k a nil, b, s)
  | node left key value right, s =>
    match cmp k key with
    | .lt =>
      let (left, b, s) := modifyAt k create f left s
      (node left key value right, b, s)
    | .eq =>
      let (value, b, s) := f value s
      (node left key value right, b, s)
    | .gt =>
      let (right, b, s) := modifyAt k create f right s
      (node left key value right, b, s)

/-- The keys are strictly increasing in order. -/
def Ordered (t : Tree κ α) : Prop := t.keys.Pairwise (fun a b ↦ cmp a b = .lt)

example : ((nil : Tree ℕ Char).insert compare 1 'a').lookup compare 1 = some 'a' := by
  simp [Tree.insert, lookup]

example : ((nil : Tree ℕ Char).modifyAt compare 1 (fun s ↦ some ('a', s)) (fun a s ↦ (a, some a, s))
    ()).1.toList = [(1, 'a')] := by
  simp [modifyAt, toList]

/-! ### `modifyAt` is an `insert` -/

variable {cmp} {k : κ} {create : σ → Option (α × σ)} {f : α → σ → α × Option β × σ}

theorem modifyAt_of_lookup_eq_some {t : Tree κ α} {a : α} (h : t.lookup cmp k = some a)
    (s : σ) :
    t.modifyAt cmp k create f s = ((t.insert cmp k (f a s).1), (f a s).2.1, (f a s).2.2) := by
  induction t with
  | nil => simp [lookup] at h
  | node left key value right ihl ihr =>
    simp only [lookup] at h
    simp only [modifyAt, insert]
    split
    · next hlt => rw [hlt] at h; simp only at h; rw [ihl h]
    · next heq => rw [heq] at h; cases h; rfl
    · next hgt => rw [hgt] at h; simp only at h; rw [ihr h]

/-- At a key that is not there, `modifyAt` changes nothing when `create` refuses, and otherwise
inserts what `f` makes of the new value. -/
theorem modifyAt_of_lookup_eq_none {t : Tree κ α} (h : t.lookup cmp k = none) (s : σ) :
    t.modifyAt cmp k create f s =
      match create s with
      | none => (t, none, s)
      | some (a, s') => (t.insert cmp k (f a s').1, (f a s').2.1, (f a s').2.2) := by
  induction t with
  | nil => simp only [modifyAt, insert]
  | node left key value right ihl ihr =>
    simp only [lookup] at h
    simp only [modifyAt, insert]
    split
    · next hlt =>
      rw [hlt] at h
      simp only at h
      rw [ihl h]
      split <;> rfl
    · next heq => rw [heq] at h; cases h
    · next hgt =>
      rw [hgt] at h
      simp only at h
      rw [ihr h]
      split <;> rfl

/-! ### Searching after an insert -/

theorem lookup_insert_self [Std.ReflCmp cmp] (t : Tree κ α) (k : κ) (a : α) :
    (t.insert cmp k a).lookup cmp k = some a := by
  induction t with
  | nil => simp [insert, lookup, Std.ReflCmp.compare_self]
  | node left key value right ihl ihr =>
    simp only [insert]
    split
    · next hlt => simp only [lookup, hlt, ihl]
    · next heq => simp only [lookup, heq]
    · next hgt => simp only [lookup, hgt, ihr]

theorem lookup_insert_of_ne [Std.LawfulEqCmp cmp] (t : Tree κ α) {k k' : κ} (a : α)
    (hne : k' ≠ k) : (t.insert cmp k a).lookup cmp k' = t.lookup cmp k' := by
  have hcmp : cmp k' k ≠ .eq := fun h ↦ hne (Std.LawfulEqCmp.eq_of_compare h)
  induction t with
  | nil =>
    simp only [insert, lookup]
    split <;> simp_all
  | node left key value right ihl ihr =>
    simp only [insert]
    split
    · next hlt => simp only [lookup]; split <;> simp_all
    · next heq =>
      -- the node of `k` keeps its key, which `k'` does not compare equal to
      obtain rfl := Std.LawfulEqCmp.eq_of_compare heq
      simp only [lookup]
      split <;> simp_all
    · next hgt => simp only [lookup]; split <;> simp_all

theorem insert_eq_self_of_lookup_eq_some {t : Tree κ α} {k : κ} {a : α}
    (h : t.lookup cmp k = some a) : t.insert cmp k a = t := by
  induction t with
  | nil => simp [lookup] at h
  | node left key value right ihl ihr =>
    simp only [lookup] at h
    simp only [insert]
    split
    · next hlt => rw [hlt] at h; rw [ihl h]
    · next heq => rw [heq] at h; cases h; rfl
    · next hgt => rw [hgt] at h; rw [ihr h]

theorem mem_toList_insert [Std.LawfulEqCmp cmp] {t : Tree κ α} {k : κ} {a : α} {e : κ × α}
    (he : e ∈ (t.insert cmp k a).toList) : e = (k, a) ∨ e ∈ t.toList := by
  induction t with
  | nil => simp_all [insert, toList]
  | node left key value right ihl ihr =>
    simp only [insert] at he
    split at he
    · simp only [toList, List.mem_append, List.mem_cons] at he ⊢
      rcases he with he | he | he
      · rcases ihl he with h | h <;> simp [h]
      · simp [he]
      · simp [he]
    · next heq =>
      -- the node of `k` keeps its key, which is `k`
      obtain rfl := Std.LawfulEqCmp.eq_of_compare heq
      simp only [toList, List.mem_append, List.mem_cons] at he ⊢
      rcases he with he | he | he <;> simp [he]
    · simp only [toList, List.mem_append, List.mem_cons] at he ⊢
      rcases he with he | he | he
      · simp [he]
      · simp [he]
      · rcases ihr he with h | h <;> simp [h]

/-! ### Order -/

variable [Std.TransCmp cmp]

/-- A node is ordered when its subtrees are, with the keys on the left below its key and those on
the right above it. -/
theorem ordered_node_iff {left right : Tree κ α} {key : κ} {value : α} :
    (node left key value right).Ordered cmp ↔
      left.Ordered cmp ∧ right.Ordered cmp ∧ (∀ x ∈ left.keys, cmp x key = .lt) ∧
        ∀ y ∈ right.keys, cmp key y = .lt := by
  simp only [Ordered, keys_node, List.pairwise_append, List.pairwise_cons, List.mem_cons]
  constructor
  · rintro ⟨hl, ⟨hkey, hr⟩, hcross⟩
    exact ⟨hl, hr, fun x hx ↦ hcross x hx key (Or.inl rfl), hkey⟩
  · rintro ⟨hl, hr, hlk, hky⟩
    refine ⟨hl, ⟨hky, hr⟩, ?_⟩
    rintro x hx y (rfl | hy)
    · exact hlk x hx
    · exact Std.TransCmp.lt_trans (hlk x hx) (hky y hy)

omit [Std.TransCmp cmp] in
theorem mem_keys_insert {t : Tree κ α} {k x : κ} {a : α} [Std.LawfulEqCmp cmp]
    (hx : x ∈ (t.insert cmp k a).keys) : x = k ∨ x ∈ t.keys := by
  induction t with
  | nil => simp_all [insert]
  | node left key value right ihl ihr =>
    simp only [insert] at hx
    split at hx
    · simp only [keys_node, List.mem_append, List.mem_cons] at hx ⊢
      rcases hx with hx | hx | hx
      · rcases ihl hx with h | h <;> simp [h]
      · simp [hx]
      · simp [hx]
    · simp_all
    · simp only [keys_node, List.mem_append, List.mem_cons] at hx ⊢
      rcases hx with hx | hx | hx
      · simp [hx]
      · simp [hx]
      · rcases ihr hx with h | h <;> simp [h]

theorem ordered_insert [Std.LawfulEqCmp cmp] {t : Tree κ α} (ht : t.Ordered cmp) (k : κ)
    (a : α) : (t.insert cmp k a).Ordered cmp := by
  induction t with
  | nil => simp [insert, Ordered, keys, toList]
  | node left key value right ihl ihr =>
    obtain ⟨hl, hr, hlk, hky⟩ := ordered_node_iff.mp ht
    simp only [insert]
    split
    · next hlt =>
      -- the new key goes left, below `key`
      refine ordered_node_iff.mpr ⟨ihl hl, hr, fun x hx ↦ ?_, hky⟩
      rcases mem_keys_insert hx with rfl | hx
      · exact hlt
      · exact hlk x hx
    · exact ordered_node_iff.mpr ⟨hl, hr, hlk, hky⟩
    · next hgt =>
      refine ordered_node_iff.mpr ⟨hl, ihr hr, hlk, fun y hy ↦ ?_⟩
      rcases mem_keys_insert hy with rfl | hy
      · exact Std.OrientedCmp.lt_of_gt hgt
      · exact hky y hy

theorem lookup_eq_some_iff [Std.LawfulEqCmp cmp] {t : Tree κ α} (ht : t.Ordered cmp) (k : κ)
    (a : α) : t.lookup cmp k = some a ↔ (k, a) ∈ t.toList := by
  induction t with
  | nil => simp [lookup, toList]
  | node left key value right ihl ihr =>
    obtain ⟨hl, hr, hlk, hky⟩ := ordered_node_iff.mp ht
    have hleft : (k, a) ∈ left.toList → cmp k key = .lt := fun h ↦
      hlk k (List.mem_map.mpr ⟨(k, a), h, rfl⟩)
    have hright : (k, a) ∈ right.toList → cmp key k = .lt := fun h ↦
      hky k (List.mem_map.mpr ⟨(k, a), h, rfl⟩)
    simp only [lookup, toList, List.mem_append, List.mem_cons, Prod.mk.injEq]
    split
    · next hlt =>
      rw [ihl hl]
      constructor
      · exact Or.inl
      · rintro (h | ⟨rfl, -⟩ | h)
        · exact h
        · simp [Std.ReflCmp.compare_self] at hlt
        · have := Std.OrientedCmp.gt_of_lt (hright h); simp_all
    · next heq =>
      obtain rfl := Std.LawfulEqCmp.eq_of_compare heq
      constructor
      · rintro ⟨⟩; exact Or.inr (Or.inl ⟨rfl, rfl⟩)
      · rintro (h | ⟨-, rfl⟩ | h)
        · have := hleft h; simp [Std.ReflCmp.compare_self] at this
        · rfl
        · have := hright h; simp [Std.ReflCmp.compare_self] at this
    · next hgt =>
      rw [ihr hr]
      constructor
      · exact fun h ↦ Or.inr (Or.inr h)
      · rintro (h | ⟨rfl, -⟩ | h)
        · simp [hleft h] at hgt
        · simp [Std.ReflCmp.compare_self] at hgt
        · exact h

end Cmp

end Tree

end Bionic.Lib.Bst
