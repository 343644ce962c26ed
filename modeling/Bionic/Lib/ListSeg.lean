import Mathlib.Logic.Function.Basic
import Mathlib.Data.List.Basic

/-!
# Singly linked lists in a heap of cells

A `Heap` maps addresses to cells and is finite: nothing lives at or above its `bound`. A cell's
successor is read by a link projection, `none` being the null pointer. `Seg link h a L b` is the
segment that starts at the link `a`, visits the cells at the addresses `L` in order and arrives
at the link `b`.

A segment that ends in null is determined by its start (`Seg.eq_of_null`), so its addresses are
distinct (`Seg.nodup`) and there are at most `bound` of them (`Seg.length_le_bound`). That bounds
the fuel of the traversal loops `seek` (to the first cell a test accepts) and `foldWhile` (an
action on every cell until it asks to stop), whose specifications read the cells in list order.
Heap updates keep a segment when they keep the cells it visits (`Seg.frame`).
-/

set_option autoImplicit false
set_option relaxedAutoImplicit false

namespace Bionic.Lib.ListSeg

/-- A finite heap of cells: every address at or above `bound` is unallocated. -/
structure Heap (γ : Type*) where
  cell : ℕ → Option γ
  bound : ℕ
  cell_of_bound_le : ∀ p, bound ≤ p → cell p = none

namespace Heap

variable {γ : Type*}

/-- The heap with no cell. -/
def empty : Heap γ := ⟨fun _ ↦ none, 0, fun _ _ ↦ rfl⟩

/-- Store `c` at `p`, allocating it if it was free. -/
def write (h : Heap γ) (p : ℕ) (c : γ) : Heap γ where
  cell := Function.update h.cell p (some c)
  bound := max h.bound (p + 1)
  cell_of_bound_le q hq := by
    rw [Function.update_of_ne (by omega)]
    exact h.cell_of_bound_le q (by omega)

/-- Release the cell at `p`. -/
def free (h : Heap γ) (p : ℕ) : Heap γ where
  cell := Function.update h.cell p none
  bound := h.bound
  cell_of_bound_le q hq := by
    by_cases hqp : q = p
    · rw [hqp, Function.update_self]
    · rw [Function.update_of_ne hqp]
      exact h.cell_of_bound_le q hq

/-- Change the cell at `p` by `f`; a free address is left alone. -/
def modify (h : Heap γ) (p : ℕ) (f : γ → γ) : Heap γ :=
  match h.cell p with
  | some c => h.write p (f c)
  | none => h

@[simp]
theorem cell_empty (q : ℕ) : (empty : Heap γ).cell q = none := rfl

@[simp]
theorem cell_write (h : Heap γ) (p : ℕ) (c : γ) (q : ℕ) :
    (h.write p c).cell q = if q = p then some c else h.cell q :=
  Function.update_apply h.cell p (some c) q

@[simp]
theorem cell_free (h : Heap γ) (p q : ℕ) :
    (h.free p).cell q = if q = p then none else h.cell q :=
  Function.update_apply h.cell p none q

@[simp]
theorem cell_modify (h : Heap γ) (p : ℕ) (f : γ → γ) (q : ℕ) :
    (h.modify p f).cell q = if q = p then (h.cell p).map f else h.cell q := by
  unfold modify
  split
  case h_1 c hc => simp [hc]
  case h_2 hc =>
    by_cases hqp : q = p
    · simp [hqp, hc]
    · simp [hqp]

@[simp]
theorem bound_free (h : Heap γ) (p : ℕ) : (h.free p).bound = h.bound := rfl

theorem lt_bound_of_cell_ne_none {h : Heap γ} {p : ℕ} (hp : h.cell p ≠ none) : p < h.bound := by
  by_contra hle
  exact hp (h.cell_of_bound_le p (Nat.le_of_not_lt hle))

end Heap

variable {γ : Type*} (link : γ → Option ℕ)

/-- The segment from the link `a` through the cells at `L`, in order, to the link `b`. -/
inductive Seg (h : Heap γ) : Option ℕ → List ℕ → Option ℕ → Prop
  | nil (a : Option ℕ) : Seg h a [] a
  | cons {q : ℕ} {c : γ} {L : List ℕ} {b : Option ℕ} :
      h.cell q = some c → Seg h (link c) L b → Seg h (some q) (q :: L) b

namespace Seg

variable {link} {h h' : Heap γ} {a b : Option ℕ} {L : List ℕ}

theorem eq_of_nil (hs : Seg link h a [] b) : a = b := by
  cases hs
  rfl

theorem cons_inv {q : ℕ} (hs : Seg link h a (q :: L) b) :
    a = some q ∧ ∃ c, h.cell q = some c ∧ Seg link h (link c) L b := by
  cases hs with
  | cons hc hs => exact ⟨rfl, _, hc, hs⟩

theorem append {L₂ : List ℕ} {e : Option ℕ} (h₁ : Seg link h a L b) (h₂ : Seg link h b L₂ e) :
    Seg link h a (L ++ L₂) e := by
  induction h₁ with
  | nil => exact h₂
  | cons hc _ ih => exact .cons hc (ih h₂)

theorem split {L₂ : List ℕ} {e : Option ℕ} (hs : Seg link h a (L ++ L₂) e) :
    ∃ b, Seg link h a L b ∧ Seg link h b L₂ e := by
  induction L generalizing a with
  | nil => exact ⟨a, .nil a, hs⟩
  | cons q L ih =>
    obtain ⟨rfl, c, hc, hs⟩ := hs.cons_inv
    obtain ⟨b, h₁, h₂⟩ := ih hs
    exact ⟨b, .cons hc h₁, h₂⟩

theorem snoc {t : ℕ} {c : γ} (hs : Seg link h a L (some t)) (hc : h.cell t = some c) :
    Seg link h a (L ++ [t]) (link c) :=
  hs.append (.cons hc (.nil _))

theorem unsnoc {t : ℕ} (hs : Seg link h a (L ++ [t]) b) :
    Seg link h a L (some t) ∧ ∃ c, h.cell t = some c ∧ link c = b := by
  obtain ⟨m, h₁, h₂⟩ := hs.split
  obtain ⟨rfl, c, hc, h₃⟩ := h₂.cons_inv
  exact ⟨h₁, c, hc, h₃.eq_of_nil⟩

theorem cell_ne_none (hs : Seg link h a L b) {q : ℕ} (hq : q ∈ L) : h.cell q ≠ none := by
  induction hs with
  | nil => simp at hq
  | @cons q' c _ _ hc _ ih =>
    rcases List.mem_cons.mp hq with rfl | hq
    · simp [hc]
    · exact ih hq

theorem frame (hs : Seg link h a L b) (hag : ∀ q ∈ L, h'.cell q = h.cell q) :
    Seg link h' a L b := by
  induction hs with
  | nil => exact .nil _
  | cons hc _ ih =>
    refine .cons ((hag _ List.mem_cons_self).trans hc) (ih fun q hq ↦ ?_)
    exact hag q (List.mem_cons_of_mem _ hq)

theorem ne_of_free (hs : Seg link h a L b) {p q : ℕ} (hq : q ∈ L) (hp : h.cell p = none) :
    q ≠ p := by
  rintro rfl
  exact hs.cell_ne_none hq hp

theorem free_of_not_mem (hs : Seg link h a L b) {p : ℕ} (hp : p ∉ L) : Seg link (h.free p) a L b :=
  hs.frame fun q hq ↦ by simp [show q ≠ p from fun hqp ↦ hp (hqp ▸ hq)]

theorem eq_of_null {L' : List ℕ} (hs : Seg link h a L none) (hs' : Seg link h a L' none) :
    L = L' := by
  induction L generalizing a L' with
  | nil =>
    cases L' with
    | nil => rfl
    | cons q L' =>
      obtain ⟨rfl, -⟩ := hs'.cons_inv
      exact absurd hs.eq_of_nil (by simp)
  | cons q L ih =>
    obtain ⟨rfl, c, hc, hs⟩ := hs.cons_inv
    cases L' with
    | nil => exact absurd hs'.eq_of_nil (by simp)
    | cons q' L' =>
      obtain ⟨hq, c', hc', hs'⟩ := hs'.cons_inv
      cases hq
      obtain rfl : c = c' := Option.some.inj (hc.symm.trans hc')
      rw [ih hs hs']

/-- A segment to null visits no cell twice: a repeated cell would make the rest of the list
start again, shorter, from the same link. -/
theorem nodup (hs : Seg link h a L none) : L.Nodup := by
  induction L generalizing a with
  | nil => exact List.nodup_nil
  | cons q L ih =>
    obtain ⟨rfl, c, hc, hrest⟩ := hs.cons_inv
    refine List.nodup_cons.mpr ⟨fun hq ↦ ?_, ih hrest⟩
    obtain ⟨L₁, L₂, rfl⟩ := List.append_of_mem hq
    obtain ⟨m, -, hm⟩ := hrest.split
    obtain ⟨rfl, -⟩ := hm.cons_inv
    have hlen := congrArg List.length (hs.eq_of_null hm)
    simp at hlen
    omega

theorem length_le_bound (hs : Seg link h a L none) : L.length ≤ h.bound := by
  have hsub : L ⊆ List.range h.bound := fun q hq ↦
    List.mem_range.mpr (Heap.lt_bound_of_cell_ne_none (hs.cell_ne_none hq))
  simpa using hs.nodup.length_le_of_subset hsub

theorem eq_nil_iff (hs : Seg link h a L none) : L = [] ↔ a = none := by
  cases L with
  | nil => simp [hs.eq_of_nil]
  | cons q L => simp [hs.cons_inv.1]

end Seg

/-- The cells at `L`, in order; along a segment every one of them is allocated. -/
def cells (h : Heap γ) (L : List ℕ) : List γ := L.filterMap h.cell

@[simp]
theorem cells_nil (h : Heap γ) : cells h [] = [] := rfl

theorem cells_cons {h : Heap γ} {q : ℕ} {c : γ} (L : List ℕ) (hc : h.cell q = some c) :
    cells h (q :: L) = c :: cells h L := by
  simp [cells, hc]

theorem cells_append (h : Heap γ) (L L' : List ℕ) :
    cells h (L ++ L') = cells h L ++ cells h L' :=
  List.filterMap_append

theorem cells_congr {h h' : Heap γ} {L : List ℕ} (hag : ∀ q ∈ L, h'.cell q = h.cell q) :
    cells h' L = cells h L :=
  List.filterMap_congr hag

theorem map_cells_congr {δ : Type*} (f : γ → δ) {h h' : Heap γ} {L : List ℕ}
    (hag : ∀ q ∈ L, (h'.cell q).map f = (h.cell q).map f) :
    (cells h' L).map f = (cells h L).map f := by
  induction L with
  | nil => rfl
  | cons q L ih =>
    have hq := hag q List.mem_cons_self
    have hL := ih fun q' hq' ↦ hag q' (List.mem_cons_of_mem _ hq')
    cases hc : h.cell q <;> cases hc' : h'.cell q <;> simp_all [cells]

section Loops

variable {σ : Type*}

/-- Follow links from `a`, reading at most `fuel` cells, to the first cell that `stop`
accepts; `some none` when null is reached first, `none` when fuel or the heap runs out. -/
def seek (stop : γ → Bool) : ℕ → Heap γ → Option ℕ → Option (Option ℕ)
  | _, _, none => some none
  | 0, _, some _ => none
  | n + 1, h, some q =>
    match h.cell q with
    | none => none
    | some c => if stop c then some (some q) else seek stop n h (link c)

/-- Run `f` on the cells from `a`, reading at most `fuel` of them, until it asks to stop; the
flag says whether null was reached. -/
def foldWhile (f : σ → γ → σ × Bool) : ℕ → Heap γ → Option ℕ → σ → Option (σ × Bool)
  | _, _, none, s => some (s, true)
  | 0, _, some _, _ => none
  | n + 1, h, some q, s =>
    match h.cell q with
    | none => none
    | some c =>
      let r := f s c
      if r.2 then foldWhile f n h (link c) r.1 else some r

/-- One step of an action that may ask to stop, as a left fold: once stopped, cells are
skipped. -/
def whileStep (f : σ → γ → σ × Bool) (r : σ × Bool) (c : γ) : σ × Bool :=
  if r.2 then f r.1 c else r

variable {link} {h : Heap γ} {a : Option ℕ} {L : List ℕ}

theorem seek_eq (stop : γ → Bool) (hs : Seg link h a L none) {fuel : ℕ} (hfuel : L.length ≤ fuel) :
    seek link stop fuel h a = some (L.find? fun q ↦ (h.cell q).any stop) := by
  induction L generalizing a fuel with
  | nil => rw [hs.eq_of_nil]; cases fuel <;> rfl
  | cons q L ih =>
    obtain ⟨rfl, c, hc, hs⟩ := hs.cons_inv
    obtain ⟨n, rfl⟩ : ∃ n, fuel = n + 1 := ⟨fuel - 1, by simp at hfuel; omega⟩
    by_cases hstop : stop c
    · simp [seek, hc, hstop]
    · simp only [seek, hc, hstop, List.find?_cons, Option.any_some]
      exact ih hs (by simpa using hfuel)

theorem foldWhile_eq (f : σ → γ → σ × Bool) (hs : Seg link h a L none) {fuel : ℕ}
    (hfuel : L.length ≤ fuel) (s : σ) :
    foldWhile link f fuel h a s = some ((cells h L).foldl (whileStep f) (s, true)) := by
  induction L generalizing a fuel s with
  | nil => rw [hs.eq_of_nil]; cases fuel <;> rfl
  | cons q L ih =>
    obtain ⟨rfl, c, hc, hs⟩ := hs.cons_inv
    obtain ⟨n, rfl⟩ : ∃ n, fuel = n + 1 := ⟨fuel - 1, by simp at hfuel; omega⟩
    rw [cells_cons L hc, List.foldl_cons, whileStep, if_pos rfl]
    simp only [foldWhile, hc]
    generalize f s c = r
    obtain ⟨s', _ | _⟩ := r
    case cons.true => exact ih hs (by simpa using hfuel) s'
    case cons.false =>
      -- once stopped, the fold passes every later cell by
      have hskip : ∀ (cs : List γ) (r : σ × Bool), r.2 = false → cs.foldl (whileStep f) r = r := by
        intro cs
        induction cs with
        | nil => intro r _; rfl
        | cons d cs ihc => intro r hr; simp [whileStep, hr, ihc r hr]
      simp [hskip (cells h L) (s', false) rfl]

theorem foldl_whileStep_of_true (f : σ → γ → σ) (cs : List γ) (s : σ) :
    cs.foldl (whileStep fun s c ↦ (f s c, true)) (s, true) = (cs.foldl f s, true) := by
  induction cs generalizing s with
  | nil => rfl
  | cons c cs ih => exact ih (f s c)

end Loops

end Bionic.Lib.ListSeg
