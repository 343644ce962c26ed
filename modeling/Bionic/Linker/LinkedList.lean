import Mathlib.Data.List.Nodup
import Bionic.Lib.ListSeg

/-!
# The linker's `LinkedList`

`linked_list.h` keeps a list of `T*` in entries from an allocator, behind a separately
allocated header of `head` and `tail`; the list's own field `header_` is null until the first
push. Entries live in a `Heap` and the header is a value of the list: its block is never
compared with an entry. The pushes take the block `Allocator::alloc` returned for the new entry,
and a run asks only that it is free (`FreshRun`): reuse of freed blocks is allowed. The loops
of the source follow `next` with fuel, the heap's bound, which a valid list never exhausts.

`Valid l ps` is the representation invariant over the entries `ps` of the list, in order:
they run from `head` to null and `tail` is the last of them, so `tail` is null exactly when
`head` is. `Represents l xs` says that `l` is valid and holds the elements `xs`.

Main results:
- one lemma per operation: `pushFront_represents`, `pushBack_represents`,
  `popFront_represents`, `removeIf_represents` (from the loop invariant of
  `removeIfLoop_represents`), `clear_represents`, with `step_represents` for all of them;
- `run_represents`: every run of operations from a valid list keeps the invariant and
  transforms the held sequence by `cons`, `snoc`, `tail`, filter-not and empty;
- the reads: `visit_eq`, `forEach_eq`, `copyToArray_eq`, `find_eq`.
-/

set_option autoImplicit false
set_option relaxedAutoImplicit false

namespace Bionic.Linker

open Bionic.Lib.ListSeg

/-- `LinkedListEntry<T>`. -/
structure LinkedListEntry (α : Type*) where
  next : Option ℕ
  element : α

/-- `LinkedList::LinkedListHeader`. -/
structure LinkedListHeader where
  head : Option ℕ
  tail : Option ℕ
  deriving DecidableEq, Repr

/-- A `LinkedList<T>`: its `header_` and the entries its allocator holds. -/
structure LinkedList (α : Type*) where
  header : Option LinkedListHeader
  entries : Heap (LinkedListEntry α)

namespace LinkedList

variable {α : Type*}

/-- `head()`: null when `header_` is. -/
def head (l : LinkedList α) : Option ℕ := l.header.bind LinkedListHeader.head

/-- The tail pointer, null when `header_` is. -/
def tail (l : LinkedList α) : Option ℕ := l.header.bind LinkedListHeader.tail

/-- `empty()`. -/
def empty (l : LinkedList α) : Bool := l.head.isNone

/-- `alloc_header()`: the header, a new one with null `head` and `tail` if `header_` is null. -/
def allocHeader (l : LinkedList α) : LinkedListHeader := l.header.getD ⟨none, none⟩

/-- `push_front(element)`, the new entry at `newEntry`. -/
def pushFront (element : α) (newEntry : ℕ) (l : LinkedList α) : LinkedList α :=
  let hdr := l.allocHeader
  let entries := l.entries.write newEntry ⟨hdr.head, element⟩
  let hdr := { hdr with head := some newEntry }
  let hdr := if hdr.tail = none then { hdr with tail := some newEntry } else hdr
  ⟨some hdr, entries⟩

/-- `push_back(element)`, the new entry at `newEntry`. -/
def pushBack (element : α) (newEntry : ℕ) (l : LinkedList α) : LinkedList α :=
  let hdr := l.allocHeader
  let entries := l.entries.write newEntry ⟨none, element⟩
  match hdr.tail with
  | none => ⟨some ⟨some newEntry, some newEntry⟩, entries⟩
  | some tail =>
    ⟨some { hdr with tail := some newEntry },
      entries.modify tail fun e ↦ { e with next := some newEntry }⟩

/-- `pop_front()`: the element of the first entry (null for an empty list) and the list
without it. -/
def popFront (l : LinkedList α) : Option α × LinkedList α :=
  match l.header with
  | none => (none, l)
  | some hdr =>
    match hdr.head with
    | none => (none, l)
    | some entry =>
      match l.entries.cell entry with
      -- a freed first entry: the invariant rules it out
      | none => (none, l)
      | some e =>
        let hdr := { hdr with head := e.next }
        let hdr := if hdr.head = none then { hdr with tail := none } else hdr
        (some e.element, ⟨some hdr, l.entries.free entry⟩)

/-- `front()`. -/
def front (l : LinkedList α) : Option α :=
  l.head.bind fun p ↦ (l.entries.cell p).map LinkedListEntry.element

/-- The loop of `clear()`, freeing the entries from `head` to null. -/
def clearLoop : ℕ → Heap (LinkedListEntry α) → Option ℕ → Option (Heap (LinkedListEntry α))
  | _, entries, none => some entries
  | 0, _, some _ => none
  | n + 1, entries, some p =>
    match entries.cell p with
    | none => none
    | some e => clearLoop n (entries.free p) e.next

/-- `clear()`; `none` when its loop does not reach null. -/
def clear (l : LinkedList α) : Option (LinkedList α) :=
  match l.header with
  | none => some l
  | some hdr =>
    match hdr.head with
    | none => some l
    | some _ =>
      (clearLoop l.entries.bound l.entries hdr.head).map fun entries ↦ ⟨some ⟨none, none⟩, entries⟩

/-- Unlink an entry whose successor is `next`, `p` being the entry before it: from the header
when `p` is null, else from `p`. -/
def unlink (p next : Option ℕ) (hdr : LinkedListHeader) (entries : Heap (LinkedListEntry α)) :
    LinkedListHeader × Heap (LinkedListEntry α) :=
  match p with
  | none => ({ hdr with head := next }, entries)
  | some q => (hdr, entries.modify q fun d ↦ { d with next := next })

/-- The loop of `remove_if(predicate)` at entry `e`, the last kept entry being `p`. -/
def removeIfLoop (predicate : α → Bool) :
    ℕ → Option ℕ → Option ℕ → LinkedListHeader → Heap (LinkedListEntry α) →
      Option (LinkedListHeader × Heap (LinkedListEntry α))
  | _, none, _, hdr, entries => some (hdr, entries)
  | 0, some _, _, _, _ => none
  | n + 1, some e, p, hdr, entries =>
    match entries.cell e with
    | none => none
    | some entry =>
      if predicate entry.element then
        let u := unlink p entry.next hdr entries
        let hdr := if u.1.tail = some e then { u.1 with tail := p } else u.1
        removeIfLoop predicate n entry.next p hdr (u.2.free e)
      else removeIfLoop predicate n entry.next (some e) hdr entries

/-- `remove_if(predicate)`. On an empty list the loop stops at once, as `empty()` returns. -/
def removeIf (predicate : α → Bool) (l : LinkedList α) : Option (LinkedList α) :=
  match l.header with
  | none => some l
  | some hdr =>
    (removeIfLoop predicate l.entries.bound hdr.head none hdr l.entries).map fun r ↦ ⟨some r.1, r.2⟩

/-- `visit(action)`: `action` with its captured state `σ`, run on the elements until it returns
false; the flag is the result of `visit`. -/
def visit {σ : Type*} (action : σ → α → σ × Bool) (l : LinkedList α) (s : σ) :
    Option (σ × Bool) :=
  foldWhile LinkedListEntry.next (fun s e ↦ action s e.element) l.entries.bound l.entries l.head s

/-- `for_each(action)`, through `visit` with an action that never stops. -/
def forEach {σ : Type*} (action : σ → α → σ) (l : LinkedList α) (s : σ) : Option σ :=
  (l.visit (fun s x ↦ (action s x, true)) s).map Prod.fst

/-- `size()`, counting with `for_each`. -/
def size (l : LinkedList α) : Option ℕ := l.forEach (fun n _ ↦ n + 1) 0

/-- `find_if(predicate)`: the first element it accepts. -/
def findIf (predicate : α → Bool) (l : LinkedList α) : Option (Option α) :=
  (seek LinkedListEntry.next (fun e ↦ predicate e.element) l.entries.bound l.entries l.head).map
    fun r ↦ r.bind fun p ↦ (l.entries.cell p).map LinkedListEntry.element

section Eq

variable [DecidableEq α]

/-- `find(value)`: the iterator at the first entry holding `value`, `none` being `end()`. -/
def find (value : α) (l : LinkedList α) : Option (Option ℕ) :=
  seek LinkedListEntry.next (fun e ↦ e.element = value) l.entries.bound l.entries l.head

/-- `contains(el)`. -/
def contains (el : α) (l : LinkedList α) : Option Bool :=
  (seek LinkedListEntry.next (fun e ↦ e.element = el) l.entries.bound l.entries l.head).map
    Option.isSome

/-- `remove(element)`. -/
def remove (element : α) (l : LinkedList α) : Option (LinkedList α) :=
  l.removeIf fun e ↦ e = element

end Eq

/-- The loop of `copy_to_array(array, array_length)`: the array written so far. -/
def copyToArrayLoop (entries : Heap (LinkedListEntry α)) (arrayLength : ℕ) :
    ℕ → Option ℕ → List α → Option (List α)
  | _, none, array => some array
  | 0, some _, array => if array.length < arrayLength then none else some array
  | n + 1, some q, array =>
    if array.length < arrayLength then
      match entries.cell q with
      | none => none
      | some entry => copyToArrayLoop entries arrayLength n entry.next (array ++ [entry.element])
    else some array

/-- `copy_to_array(array, array_length)`: the elements written to `array`, in order; their
number is the result. -/
def copyToArray (arrayLength : ℕ) (l : LinkedList α) : Option (List α) :=
  copyToArrayLoop l.entries arrayLength l.entries.bound l.head []

/-! ## The representation invariant -/

/-- The elements of the entries at `ps`. -/
def elements (entries : Heap (LinkedListEntry α)) (ps : List ℕ) : List α :=
  (cells entries ps).map LinkedListEntry.element

/-- The representation invariant, `ps` being the entries of the list in order. -/
def Valid (l : LinkedList α) (ps : List ℕ) : Prop :=
  Seg LinkedListEntry.next l.entries l.head ps none ∧ l.tail = ps.getLast?

/-- `l` is valid and holds the sequence `xs`. -/
def Represents (l : LinkedList α) (xs : List α) : Prop :=
  ∃ ps, l.Valid ps ∧ elements l.entries ps = xs

@[simp]
theorem head_allocHeader (l : LinkedList α) : l.allocHeader.head = l.head := by
  cases h : l.header <;> simp [allocHeader, head, h]

@[simp]
theorem tail_allocHeader (l : LinkedList α) : l.allocHeader.tail = l.tail := by
  cases h : l.header <;> simp [allocHeader, tail, h]

@[simp]
theorem elements_nil (entries : Heap (LinkedListEntry α)) : elements entries [] = [] := rfl

theorem elements_cons {entries : Heap (LinkedListEntry α)} {q : ℕ} {e : LinkedListEntry α}
    (ps : List ℕ) (he : entries.cell q = some e) :
    elements entries (q :: ps) = e.element :: elements entries ps := by
  simp [elements, cells_cons ps he]

theorem elements_append (entries : Heap (LinkedListEntry α)) (ps ps' : List ℕ) :
    elements entries (ps ++ ps') = elements entries ps ++ elements entries ps' := by
  simp [elements, cells_append]

theorem elements_congr {entries entries' : Heap (LinkedListEntry α)} {ps : List ℕ}
    (hag : ∀ q ∈ ps, (entries'.cell q).map LinkedListEntry.element =
      (entries.cell q).map LinkedListEntry.element) :
    elements entries' ps = elements entries ps :=
  map_cells_congr _ hag

theorem map_element_cell_modify_next (entries : Heap (LinkedListEntry α)) (p q : ℕ)
    (next : Option ℕ) :
    ((entries.modify p fun e ↦ { e with next := next }).cell q).map LinkedListEntry.element =
      (entries.cell q).map LinkedListEntry.element := by
  by_cases hqp : q = p
  · subst hqp
    rw [Heap.cell_modify, if_pos rfl, Option.map_map]
    rfl
  · simp [hqp]

theorem represents_nil (entries : Heap (LinkedListEntry α)) :
    (⟨none, entries⟩ : LinkedList α).Represents [] :=
  ⟨[], ⟨.nil none, rfl⟩, rfl⟩

/-! ## The operations keep the invariant -/

section Ops

variable {l : LinkedList α} {ps : List ℕ}

@[simp]
theorem head_pushFront (element : α) (newEntry : ℕ) (l : LinkedList α) :
    (l.pushFront element newEntry).head = some newEntry := by
  simp only [pushFront]
  split <;> rfl

theorem tail_pushFront (element : α) (newEntry : ℕ) (l : LinkedList α) :
    (l.pushFront element newEntry).tail = if l.tail = none then some newEntry else l.tail := by
  simp only [pushFront, ← tail_allocHeader]
  split <;> simp_all [tail]

@[simp]
theorem entries_pushFront (element : α) (newEntry : ℕ) (l : LinkedList α) :
    (l.pushFront element newEntry).entries = l.entries.write newEntry ⟨l.head, element⟩ := by
  simp [pushFront]

theorem pushFront_represents (hv : l.Valid ps) (element : α) {newEntry : ℕ}
    (hfree : l.entries.cell newEntry = none) :
    (l.pushFront element newEntry).Valid (newEntry :: ps) ∧
      elements (l.pushFront element newEntry).entries (newEntry :: ps) =
        element :: elements l.entries ps := by
  obtain ⟨hs, htail⟩ := hv
  have hcell : (l.pushFront element newEntry).entries.cell newEntry = some ⟨l.head, element⟩ := by
    simp
  have hag : ∀ q ∈ ps, (l.pushFront element newEntry).entries.cell q = l.entries.cell q :=
    fun q hq ↦ by simp [hs.ne_of_free hq hfree]
  refine ⟨⟨by simpa using Seg.cons hcell (hs.frame hag), ?_⟩, ?_⟩
  · -- the new entry is also the tail exactly when the list was empty
    rw [tail_pushFront]
    by_cases hnil : ps = []
    · subst hnil
      simp [htail]
    · have hne : l.tail ≠ none := by simpa [htail] using hnil
      rw [if_neg hne, htail, List.getLast?_cons_of_ne_nil hnil]
  · rw [elements_cons ps hcell, elements, cells_congr hag]
    rfl

theorem pushBack_of_tail_none (element : α) (newEntry : ℕ) (ht : l.tail = none) :
    l.pushBack element newEntry =
      ⟨some ⟨some newEntry, some newEntry⟩, l.entries.write newEntry ⟨none, element⟩⟩ := by
  simp [pushBack, ht]

theorem pushBack_of_tail_some (element : α) (newEntry : ℕ) {t : ℕ} (ht : l.tail = some t) :
    l.pushBack element newEntry =
      ⟨some ⟨l.head, some newEntry⟩, (l.entries.write newEntry ⟨none, element⟩).modify t
        fun e ↦ { e with next := some newEntry }⟩ := by
  simp [pushBack, ht]

theorem pushBack_represents (hv : l.Valid ps) (element : α) {newEntry : ℕ}
    (hfree : l.entries.cell newEntry = none) :
    (l.pushBack element newEntry).Valid (ps ++ [newEntry]) ∧
      elements (l.pushBack element newEntry).entries (ps ++ [newEntry]) =
        elements l.entries ps ++ [element] := by
  obtain ⟨hs, htail⟩ := hv
  cases ht : l.tail with
  | none =>
    have hnil : ps = [] := List.getLast?_eq_none_iff.mp (htail.symm.trans ht)
    subst hnil
    have hhead : l.head = none := hs.eq_of_nil
    rw [pushBack_of_tail_none element newEntry ht]
    refine ⟨⟨.cons (c := ⟨none, element⟩) (by simp) (.nil none), rfl⟩, ?_⟩
    simp [elements, cells]
  | some t =>
    obtain ⟨ps₀, rfl⟩ := List.getLast?_eq_some_iff.mp (htail.symm.trans ht)
    obtain ⟨hs₀, c, hc, -⟩ := hs.unsnoc
    have hnd := hs.nodup
    have htp : t ≠ newEntry := hs.ne_of_free (by simp) hfree
    rw [pushBack_of_tail_some element newEntry ht]
    generalize hnew : (l.entries.write newEntry ⟨none, element⟩).modify t
      (fun e ↦ { e with next := some newEntry }) = entries'
    have hagree : ∀ q ∈ ps₀, entries'.cell q = l.entries.cell q := by
      intro q hq
      have hqt : q ≠ t := fun h ↦ List.disjoint_of_nodup_append hnd hq (by simp [h])
      simp [← hnew, hqt, hs.ne_of_free (List.mem_append_left _ hq) hfree]
    -- the old tail now links to the new entry, the last one
    have hseg := (hs₀.frame hagree).snoc (c := { c with next := some newEntry })
      (by simp [← hnew, htp, hc])
    have hlast : entries'.cell newEntry = some ⟨none, element⟩ := by simp [← hnew, htp.symm]
    refine ⟨⟨hseg.append (.cons hlast (.nil none)), by simp [tail]⟩, ?_⟩
    have hkeep : elements entries' (ps₀ ++ [t]) = elements l.entries (ps₀ ++ [t]) := by
      refine elements_congr fun q hq ↦ ?_
      rw [← hnew, map_element_cell_modify_next]
      simp [hs.ne_of_free hq hfree]
    rw [elements_append, elements_cons [] hlast, hkeep]
    rfl

theorem popFront_represents (hv : l.Valid ps) :
    l.popFront.1 = (elements l.entries ps).head? ∧
      l.popFront.2.Valid ps.tail ∧
      elements l.popFront.2.entries ps.tail = (elements l.entries ps).tail := by
  obtain ⟨hs, htail⟩ := hv
  cases ps with
  | nil =>
    -- `empty()`: nothing changes
    have hhead : l.head = none := hs.eq_of_nil
    have hpop : l.popFront = (none, l) := by
      unfold popFront
      cases hh : l.header with
      | none => rfl
      | some hdr =>
        have : hdr.head = none := by simpa [head, hh] using hhead
        simp [this]
    simp [hpop, Valid, hs, htail, elements]
  | cons q ps =>
    obtain ⟨hq, e, he, hrest⟩ := hs.cons_inv
    obtain ⟨hdr, hh, hhdr⟩ : ∃ hdr, l.header = some hdr ∧ hdr.head = some q := by
      cases hh : l.header with
      | none => simp [head, hh] at hq
      | some hdr => exact ⟨hdr, rfl, by simpa [head, hh] using hq⟩
    have hqps : q ∉ ps := (List.nodup_cons.mp hs.nodup).1
    have hpop : l.popFront = (some e.element, ⟨some (if e.next = none then
        { hdr with head := e.next, tail := none } else { hdr with head := e.next }),
        l.entries.free q⟩) := by
      simp [popFront, hh, hhdr, he]
    rw [hpop]
    refine ⟨by simp [elements_cons ps he], ⟨?_, ?_⟩, ?_⟩
    · have := hrest.free_of_not_mem hqps
      split <;> simpa [head]
    · -- the old tail stays unless the list had one entry
      by_cases hnil : ps = []
      · subst hnil
        have : e.next = none := hrest.eq_of_nil
        simp [tail, this]
      · have hnext : e.next ≠ none := fun h ↦ hnil ((hrest.eq_nil_iff).mpr h)
        have htl : hdr.tail = ps.getLast? := by
          simpa [tail, hh, List.getLast?_cons_of_ne_nil hnil] using htail
        simp [tail, hnext, htl]
    · show elements (l.entries.free q) ps = (elements l.entries (q :: ps)).tail
      rw [elements_cons ps he, List.tail_cons]
      exact congrArg (List.map LinkedListEntry.element) (cells_congr fun q' hq' ↦ by
        simp [show q' ≠ q from fun h ↦ hqps (h ▸ hq')])

theorem clearLoop_eq {entries : Heap (LinkedListEntry α)} {a : Option ℕ}
    (hs : Seg LinkedListEntry.next entries a ps none) {fuel : ℕ} (hfuel : ps.length ≤ fuel) :
    ∃ entries', clearLoop fuel entries a = some entries' ∧
      ∀ q, entries'.cell q = if q ∈ ps then none else entries.cell q := by
  induction ps generalizing a entries fuel with
  | nil => exact ⟨entries, by rw [hs.eq_of_nil]; cases fuel <;> rfl, by simp⟩
  | cons p ps ih =>
    obtain ⟨rfl, e, he, hrest⟩ := hs.cons_inv
    obtain ⟨n, rfl⟩ : ∃ n, fuel = n + 1 := ⟨fuel - 1, by simp at hfuel; omega⟩
    have hp : p ∉ ps := (List.nodup_cons.mp hs.nodup).1
    obtain ⟨entries', hloop, hcell⟩ :=
      ih (hrest.free_of_not_mem hp) (by simpa using hfuel)
    refine ⟨entries', by simp [clearLoop, he, hloop], fun q ↦ ?_⟩
    rw [hcell]
    by_cases hqp : q = p <;> simp [hqp]

theorem clear_represents (hv : l.Valid ps) :
    ∃ l', l.clear = some l' ∧ l'.Valid [] := by
  obtain ⟨hs, htail⟩ := hv
  unfold clear
  cases hh : l.header with
  | none =>
    have hps : ps = [] := (hs.eq_nil_iff).mpr (by simp [head, hh])
    subst hps
    exact ⟨l, rfl, hs, htail⟩
  | some hdr =>
    cases hhd : hdr.head with
    | none =>
      -- `empty()`: then `tail` is null as well
      have hps : ps = [] := (hs.eq_nil_iff).mpr (by simp [head, hh, hhd])
      subst hps
      exact ⟨l, by simp [hhd], hs, htail⟩
    | some p =>
      have hs' : Seg LinkedListEntry.next l.entries (some p) ps none := by
        simpa [head, hh, hhd] using hs
      obtain ⟨entries', hloop, -⟩ := clearLoop_eq hs' hs.length_le_bound
      exact ⟨⟨some ⟨none, none⟩, entries'⟩, by simp [hhd, hloop], .nil none, rfl⟩

/-- What `unlink` does for the entry `q` after the kept entries `K`: the kept segment now
arrives at `q`'s successor, the tail is untouched, and only the entry before `q` changed, in its
link alone. -/
theorem unlink_spec {K : List ℕ} {hdr : LinkedListHeader} {entries : Heap (LinkedListEntry α)}
    {q : ℕ} {e : LinkedListEntry α} (hK : Seg LinkedListEntry.next entries hdr.head K (some q))
    (hnd : (K ++ [q]).Nodup) :
    Seg LinkedListEntry.next ((unlink K.getLast? e.next hdr entries).2.free q)
        (unlink K.getLast? e.next hdr entries).1.head K e.next ∧
      (unlink K.getLast? e.next hdr entries).1.tail = hdr.tail ∧
      (∀ q' ∉ K, (unlink K.getLast? e.next hdr entries).2.cell q' = entries.cell q') ∧
      ∀ q', ((unlink K.getLast? e.next hdr entries).2.cell q').map LinkedListEntry.element =
        (entries.cell q').map LinkedListEntry.element := by
  rcases List.eq_nil_or_concat' K with rfl | ⟨K₀, t, rfl⟩
  · exact ⟨.nil _, rfl, fun _ _ ↦ rfl, fun _ ↦ rfl⟩
  · obtain ⟨hK₀, ct, hct, -⟩ := hK.unsnoc
    have hnd' : (K₀ ++ [t]).Nodup := hnd.sublist (List.sublist_append_left _ _)
    have hne_q : ∀ q' ∈ K₀ ++ [t], q' ≠ q := fun q' hq' h ↦
      List.disjoint_of_nodup_append hnd hq' (by simp [h])
    have hlast : (K₀ ++ [t]).getLast? = some t := by simp
    simp only [hlast, unlink]
    refine ⟨?_, trivial, fun q' hq' ↦ ?_, fun q' ↦ map_element_cell_modify_next _ _ _ _⟩
    · -- the entry before `q` now links past it
      have hagree : ∀ q' ∈ K₀, ((entries.modify t fun d ↦ { d with next := e.next }).free q).cell q' =
          entries.cell q' := by
        intro q' hq'
        have hq't : q' ≠ t := fun h ↦ List.disjoint_of_nodup_append hnd' hq' (by simp [h])
        simp [hne_q q' (List.mem_append_left _ hq'), hq't]
      exact (hK₀.frame hagree).snoc (c := { ct with next := e.next }) (by simp [hne_q t (by simp), hct])
    · have hq't : q' ≠ t := fun h ↦ hq' (by simp [h])
      simp [hq't]

/-- The loop invariant of `remove_if`: the kept entries `K` run from `head` to the current entry
`e`, the rest `R` runs from `e` to null as before the loop, and `tail` is the last of `K ++ R`.
The loop keeps the entries of `R` whose elements the predicate rejects and frees the others. -/
theorem removeIfLoop_represents (predicate : α → Bool) {R K : List ℕ} {e : Option ℕ}
    {hdr : LinkedListHeader} {entries : Heap (LinkedListEntry α)}
    (hK : Seg LinkedListEntry.next entries hdr.head K e)
    (hR : Seg LinkedListEntry.next entries e R none) (hnd : (K ++ R).Nodup)
    (htail : hdr.tail = (K ++ R).getLast?) {fuel : ℕ} (hfuel : R.length ≤ fuel) :
    ∃ hdr' entries' K',
      removeIfLoop predicate fuel e K.getLast? hdr entries = some (hdr', entries') ∧
      Seg LinkedListEntry.next entries' hdr'.head (K ++ K') none ∧
      hdr'.tail = (K ++ K').getLast? ∧
      elements entries' (K ++ K') =
        elements entries K ++ (elements entries R).filter fun x ↦ !predicate x := by
  induction R generalizing K e hdr entries fuel with
  | nil =>
    obtain rfl : e = none := hR.eq_of_nil
    exact ⟨hdr, entries, [], by cases fuel <;> rfl, by simpa using hK, by simpa using htail,
      by simp [elements]⟩
  | cons q R ih =>
    obtain ⟨rfl, c, hc, hrest⟩ := hR.cons_inv
    obtain ⟨n, rfl⟩ : ∃ n, fuel = n + 1 := ⟨fuel - 1, by simp at hfuel; omega⟩
    have hdis := List.disjoint_of_nodup_append hnd
    have hqR : q ∉ R := (List.nodup_cons.mp (hnd.sublist (List.sublist_append_right K _))).1
    have hndKR : (K ++ R).Nodup := hnd.sublist ((List.sublist_cons_self q R).append_left K)
    by_cases hpred : predicate c.element
    · -- the entry goes: unlink it, move the tail back if it was the tail, and free it
      have hndKq : (K ++ [q]).Nodup :=
        hnd.sublist (((List.nil_sublist R).cons_cons q).append_left K)
      obtain ⟨hseg, hutail, hout, helt⟩ := unlink_spec (e := c) hK hndKq
      generalize hu : unlink K.getLast? c.next hdr entries = u at hseg hutail hout helt
      generalize hhdr : (if u.1.tail = some q then { u.1 with tail := K.getLast? } else u.1) = hdr₂
      have hhead₂ : hdr₂.head = u.1.head := by
        rw [← hhdr]
        split <;> rfl
      have htail₂ : hdr₂.tail = (K ++ R).getLast? := by
        rw [← hhdr]
        by_cases hnil : R = []
        · subst hnil
          simp [hutail, htail]
        · have hlast : (K ++ q :: R).getLast? = R.getLast? := by
            rw [← List.singleton_append, ← List.append_assoc, List.getLast?_append_of_ne_nil _ hnil]
          have hne : R.getLast? ≠ some q := fun h ↦ hqR (List.mem_of_getLast? h)
          rw [hutail, htail, hlast, if_neg hne, hutail, htail, hlast,
            List.getLast?_append_of_ne_nil _ hnil]
      -- cells of `R` are neither `q` nor in `K`, so freeing and relinking left them alone
      have hfrR : ∀ q' ∈ R, (u.2.free q).cell q' = entries.cell q' := by
        intro q' hq'
        have hq'q : q' ≠ q := fun h ↦ hqR (h ▸ hq')
        have hq'K : q' ∉ K := fun h ↦ hdis h (List.mem_cons_of_mem q hq')
        simp [hq'q, hout q' hq'K]
      obtain ⟨hdr', entries', K', hloop, hs', ht', hel'⟩ :=
        ih (hhead₂ ▸ hseg) (hrest.frame hfrR) hndKR htail₂ (by simpa using hfuel)
      refine ⟨hdr', entries', K', ?_, hs', ht', ?_⟩
      · simp only [removeIfLoop, hc, hpred, if_true, hu, hhdr]
        exact hloop
      · have hkeepK : elements (u.2.free q) K = elements entries K := by
          refine elements_congr fun q' hq' ↦ ?_
          have hq'q : q' ≠ q := fun h ↦ hdis (h ▸ hq') List.mem_cons_self
          simp [hq'q, helt q']
        have hkeepR : elements (u.2.free q) R = elements entries R :=
          congrArg (List.map LinkedListEntry.element) (cells_congr hfrR)
        rw [hel', hkeepK, hkeepR, elements_cons R hc]
        simp [hpred]
    · -- the entry stays and becomes the last kept one
      have hpred' : predicate c.element = false := by simpa using hpred
      obtain ⟨hdr', entries', K', hloop, hs', ht', hel'⟩ :=
        ih (K := K ++ [q]) (hK.snoc hc) hrest (by simpa using hnd) (by simpa using htail)
          (by simpa using hfuel)
      refine ⟨hdr', entries', q :: K', ?_, by simpa using hs', by simpa using ht', ?_⟩
      · simp only [removeIfLoop, hc, hpred', Bool.false_eq_true, if_false]
        simpa using hloop
      · rw [elements_cons R hc]
        simpa [elements_append, elements_cons [] hc, hpred'] using hel'

theorem removeIf_represents (predicate : α → Bool) (hv : l.Valid ps) :
    ∃ l' ps', l.removeIf predicate = some l' ∧ l'.Valid ps' ∧
      elements l'.entries ps' = (elements l.entries ps).filter fun x ↦ !predicate x := by
  obtain ⟨hs, htail⟩ := hv
  unfold removeIf
  cases hh : l.header with
  | none =>
    have hps : ps = [] := (hs.eq_nil_iff).mpr (by simp [head, hh])
    subst hps
    exact ⟨l, [], rfl, ⟨hs, htail⟩, by simp [elements]⟩
  | some hdr =>
    have hs' : Seg LinkedListEntry.next l.entries hdr.head ps none := by
      simpa [head, hh] using hs
    have ht' : hdr.tail = ps.getLast? := by simpa [tail, hh] using htail
    obtain ⟨hdr', entries', K', hloop, hseg, htl, hel⟩ :=
      removeIfLoop_represents predicate (K := []) (.nil hdr.head) hs' (by simpa using hs.nodup)
        (by simpa using ht') hs.length_le_bound
    exact ⟨⟨some hdr', entries'⟩, K', by simpa using hloop, ⟨by simpa [head] using hseg,
      by simpa [tail] using htl⟩, by simpa [elements] using hel⟩

end Ops

/-! ## Reading a valid list -/

section Reads

variable {l : LinkedList α} {ps : List ℕ}

theorem visit_eq (hv : l.Valid ps) {σ : Type*} (action : σ → α → σ × Bool) (s : σ) :
    l.visit action s = some ((elements l.entries ps).foldl (whileStep action) (s, true)) := by
  rw [visit, foldWhile_eq _ hv.1 hv.1.length_le_bound, elements, List.foldl_map]
  rfl

theorem forEach_eq (hv : l.Valid ps) {σ : Type*} (action : σ → α → σ) (s : σ) :
    l.forEach action s = some ((elements l.entries ps).foldl action s) := by
  simp [forEach, visit_eq hv, foldl_whileStep_of_true]

theorem size_eq (hv : l.Valid ps) : l.size = some (elements l.entries ps).length := by
  rw [size, forEach_eq hv]
  -- counting from `k` adds the length
  suffices h : ∀ (xs : List α) (k : ℕ), xs.foldl (fun n _ ↦ n + 1) k = k + xs.length by simp [h]
  intro xs
  induction xs with
  | nil => simp
  | cons x xs ih =>
    intro k
    simp only [List.foldl_cons, ih, List.length_cons]
    omega

theorem copyToArrayLoop_eq (entries : Heap (LinkedListEntry α)) (arrayLength : ℕ) {a : Option ℕ}
    (hs : Seg LinkedListEntry.next entries a ps none) {fuel : ℕ} (hfuel : ps.length ≤ fuel)
    (array : List α) :
    copyToArrayLoop entries arrayLength fuel a array =
      some (array ++ (elements entries ps).take (arrayLength - array.length)) := by
  induction ps generalizing a fuel array with
  | nil =>
    rw [hs.eq_of_nil]
    cases fuel <;> simp [copyToArrayLoop]
  | cons q ps ih =>
    obtain ⟨rfl, c, hc, hrest⟩ := hs.cons_inv
    obtain ⟨n, rfl⟩ : ∃ n, fuel = n + 1 := ⟨fuel - 1, by simp at hfuel; omega⟩
    by_cases hlt : array.length < arrayLength
    · obtain ⟨k, hk⟩ : ∃ k, arrayLength - array.length = k + 1 := ⟨_, (Nat.succ_pred_eq_of_pos
        (Nat.sub_pos_of_lt hlt)).symm⟩
      have hk' : arrayLength - (array.length + 1) = k := by omega
      simp only [copyToArrayLoop, if_pos hlt, hc]
      rw [ih hrest (by simpa using hfuel), elements_cons ps hc, hk, List.take_succ_cons,
        List.length_append, List.length_singleton, hk', List.append_assoc, List.singleton_append]
    · have hzero : arrayLength - array.length = 0 := by omega
      simp [copyToArrayLoop, hlt, hzero]

theorem copyToArray_eq (hv : l.Valid ps) (arrayLength : ℕ) :
    l.copyToArray arrayLength = some ((elements l.entries ps).take arrayLength) := by
  simp [copyToArray, copyToArrayLoop_eq _ _ hv.1 hv.1.length_le_bound]

theorem front_eq (hv : l.Valid ps) : l.front = (elements l.entries ps).head? := by
  cases ps with
  | nil => simp [front, hv.1.eq_of_nil]
  | cons q ps =>
    obtain ⟨hq, c, hc, -⟩ := hv.1.cons_inv
    simp [front, hq, hc, elements_cons ps hc]

/-- The first entry of a segment whose element is `value` is at the position of `value` among
the elements. -/
theorem find?_eq_getElem?_idxOf [DecidableEq α] (value : α) {entries : Heap (LinkedListEntry α)}
    {a : Option ℕ} (hs : Seg LinkedListEntry.next entries a ps none) :
    ps.find? (fun q ↦ (entries.cell q).any fun e ↦ decide (e.element = value)) =
      ps[(elements entries ps).idxOf value]? := by
  induction ps generalizing a with
  | nil => rfl
  | cons q ps ih =>
    obtain ⟨-, c, hc, hrest⟩ := hs.cons_inv
    rw [elements_cons ps hc, List.idxOf_cons]
    by_cases hv : c.element = value
    · simp [hc, hv]
    · have hb : (c.element == value) = false := by simpa using hv
      simp [hc, hv, hb, ih hrest]

theorem find_eq [DecidableEq α] (hv : l.Valid ps) (value : α) :
    l.find value = some ps[(elements l.entries ps).idxOf value]? := by
  rw [find, seek_eq _ hv.1 hv.1.length_le_bound, find?_eq_getElem?_idxOf value hv.1]

end Reads

/-! ## Runs -/

/-- The operations of a run: those that change a list, and `find`. A push carries the block
`Allocator::alloc` returned for its entry. -/
inductive Op (α : Type*)
  | pushFront (element : α) (newEntry : ℕ)
  | pushBack (element : α) (newEntry : ℕ)
  | popFront
  | removeIf (predicate : α → Bool)
  | clear
  | find (value : α)

namespace Op

/-- What an operation does to the sequence a list holds. -/
def abstract : Op α → List α → List α
  | pushFront element _, xs => element :: xs
  | pushBack element _, xs => xs ++ [element]
  | popFront, xs => xs.tail
  | removeIf predicate, xs => xs.filter fun x ↦ !predicate x
  | clear, _ => []
  | find _, xs => xs

/-- The block a push gets holds no entry. -/
def fresh (l : LinkedList α) : Op α → Bool
  | pushFront _ newEntry | pushBack _ newEntry => (l.entries.cell newEntry).isNone
  | _ => true

end Op

/-- A run's operations on abstract sequences. -/
def abstractRun (ops : List (Op α)) (xs : List α) : List α :=
  ops.foldl (fun xs op ↦ op.abstract xs) xs

section Runs

variable [DecidableEq α]

/-- One operation; `none` when its loop does not reach null. `find` leaves the list as it
is. -/
def step : Op α → LinkedList α → Option (LinkedList α)
  | .pushFront element newEntry, l => some (l.pushFront element newEntry)
  | .pushBack element newEntry, l => some (l.pushBack element newEntry)
  | .popFront, l => some l.popFront.2
  | .removeIf predicate, l => l.removeIf predicate
  | .clear, l => l.clear
  | .find value, l => (l.find value).map fun _ ↦ l

/-- The operations one after another. -/
def run : List (Op α) → LinkedList α → Option (LinkedList α)
  | [], l => some l
  | op :: ops, l => (step op l).bind (run ops)

/-- Every push of the run gets a block that holds no entry when it is made. -/
def freshRun : List (Op α) → LinkedList α → Bool
  | [], _ => true
  | op :: ops, l => op.fresh l && (step op l).all (freshRun ops)

theorem step_represents {l : LinkedList α} {xs : List α} (hl : l.Represents xs) (op : Op α)
    (hfresh : op.fresh l = true) :
    ∃ l', step op l = some l' ∧ l'.Represents (op.abstract xs) := by
  obtain ⟨ps, hv, rfl⟩ := hl
  cases op with
  | pushFront element newEntry =>
    obtain ⟨hv', hel⟩ := pushFront_represents hv element (by simpa [Op.fresh] using hfresh)
    exact ⟨_, rfl, _, hv', hel⟩
  | pushBack element newEntry =>
    obtain ⟨hv', hel⟩ := pushBack_represents hv element (by simpa [Op.fresh] using hfresh)
    exact ⟨_, rfl, _, hv', hel⟩
  | popFront =>
    obtain ⟨-, hv', hel⟩ := popFront_represents hv
    exact ⟨_, rfl, _, hv', hel⟩
  | removeIf predicate =>
    obtain ⟨l', ps', hl', hv', hel⟩ := removeIf_represents predicate hv
    exact ⟨l', hl', ps', hv', hel⟩
  | clear =>
    obtain ⟨l', hl', hv'⟩ := clear_represents hv
    exact ⟨l', hl', [], hv', rfl⟩
  | find value => exact ⟨l, by simp [step, find_eq hv], ps, hv, rfl⟩

/-- The run lemma: a run with fresh blocks from a valid list reaches a valid list that holds
the abstract run's sequence. -/
theorem run_eq_some_represents {l : LinkedList α} {xs : List α} (hl : l.Represents xs)
    (ops : List (Op α)) (hfresh : freshRun ops l = true) :
    ∃ l', run ops l = some l' ∧ l'.Represents (abstractRun ops xs) := by
  induction ops generalizing l xs with
  | nil => exact ⟨l, rfl, hl⟩
  | cons op ops ih =>
    simp only [freshRun, Bool.and_eq_true] at hfresh
    obtain ⟨l₁, hstep, hl₁⟩ := step_represents hl op hfresh.1
    rw [hstep, Option.all_some] at hfresh
    obtain ⟨l', hrun, hl'⟩ := ih hl₁ hfresh.2
    exact ⟨l', by simp [run, hstep, hrun], hl'⟩

theorem run_represents {l : LinkedList α} {xs : List α} (hl : l.Represents xs)
    (ops : List (Op α)) (hfresh : freshRun ops l = true) :
    ∃ l', run ops l = some l' ∧ l'.Represents (abstractRun ops xs) ∧
      (∀ (σ : Type) (action : σ → α → σ × Bool) (s : σ),
        l'.visit action s = some ((abstractRun ops xs).foldl (whileStep action) (s, true))) ∧
      (∀ (σ : Type) (action : σ → α → σ) (s : σ),
        l'.forEach action s = some ((abstractRun ops xs).foldl action s)) ∧
      ∀ arrayLength, l'.copyToArray arrayLength = some ((abstractRun ops xs).take arrayLength) := by
  obtain ⟨l', hrun, ps, hv, hel⟩ := run_eq_some_represents hl ops hfresh
  refine ⟨l', hrun, ⟨ps, hv, hel⟩, fun σ action s ↦ ?_, fun σ action s ↦ ?_, fun n ↦ ?_⟩
  · rw [visit_eq hv, hel]
  · rw [forEach_eq hv, hel]
  · rw [copyToArray_eq hv, hel]

/-- The source's `remove_if_last_then_push_back`: four pushes, the last two removed, and a push
into a freed block. -/
theorem run_represents_removeIfLastThenPushBack :
    (⟨none, Heap.empty⟩ : LinkedList ℕ).Represents [] ∧
      freshRun [.pushBack 1 0, .pushBack 2 1, .pushBack 3 2, .pushBack 4 3,
        .removeIf (fun x ↦ x == 3 || x == 4), .pushBack 4 2] ⟨none, Heap.empty⟩ = true ∧
      ∃ l', run [.pushBack 1 0, .pushBack 2 1, .pushBack 3 2, .pushBack 4 3,
          .removeIf (fun x ↦ x == 3 || x == 4), .pushBack 4 2] ⟨none, Heap.empty⟩ = some l' ∧
        l'.Represents (abstractRun [.pushBack 1 0, .pushBack 2 1, .pushBack 3 2, .pushBack 4 3,
          .removeIf (fun x ↦ x == 3 || x == 4), .pushBack 4 2] []) ∧
        (∀ (σ : Type) (action : σ → ℕ → σ × Bool) (s : σ),
          l'.visit action s = some ((abstractRun [.pushBack 1 0, .pushBack 2 1, .pushBack 3 2,
            .pushBack 4 3, .removeIf (fun x ↦ x == 3 || x == 4), .pushBack 4 2] []).foldl
              (whileStep action) (s, true))) ∧
        (∀ (σ : Type) (action : σ → ℕ → σ) (s : σ),
          l'.forEach action s = some ((abstractRun [.pushBack 1 0, .pushBack 2 1, .pushBack 3 2,
            .pushBack 4 3, .removeIf (fun x ↦ x == 3 || x == 4), .pushBack 4 2] []).foldl
              action s)) ∧
        ∀ arrayLength, l'.copyToArray arrayLength = some ((abstractRun [.pushBack 1 0,
          .pushBack 2 1, .pushBack 3 2, .pushBack 4 3, .removeIf (fun x ↦ x == 3 || x == 4),
          .pushBack 4 2] []).take arrayLength) :=
  ⟨represents_nil Heap.empty, by decide, run_represents (represents_nil Heap.empty) _ (by decide)⟩

example : (run [.pushBack 1 0, .pushBack 2 1, .pushBack 3 2, .pushBack 4 3,
    .removeIf (fun x ↦ x == 3 || x == 4), .pushBack 4 2] ⟨none, Heap.empty⟩).bind
      (copyToArray 128) = some [1, 2, 4] := by
  decide

end Runs

end LinkedList

end Bionic.Linker
