import Mathlib.Data.List.DropRight
import Mathlib.Data.List.TakeWhile

/-!
# The pieces of a list between separators

`pieces sep s` is the list of the non-empty runs of `s` between occurrences of `sep`: the
components of a path for `sep = '/'`. A separator splits the pieces (`pieces_append_cons`), so
separators at either end or doubled change nothing (`pieces_append_singleton`,
`pieces_rdropWhile`), and the last piece of a list that does not end in a separator is what
follows its last separator (`pieces_of_getLast_ne`).
-/

set_option autoImplicit false
set_option relaxedAutoImplicit false

namespace Bionic.Lib.Pieces

variable {α : Type} [DecidableEq α] (sep : α)

/-- The non-empty runs of `s` between occurrences of `sep`, in order. -/
def pieces (s : List α) : List (List α) := (s.splitOn sep).filter (· ≠ [])

@[simp]
theorem pieces_nil : pieces sep [] = [] := by
  simp [pieces]

theorem pieces_of_forall_ne {s : List α} (h : ∀ x ∈ s, x ≠ sep) :
    pieces sep s = if s = [] then [] else [s] := by
  unfold pieces List.splitOn
  rw [List.splitOnP_eq_singleton (by simpa using h)]
  split_ifs with hs <;> simp [hs]

theorem pieces_append_cons_of_forall_ne {a : List α} (h : ∀ x ∈ a, x ≠ sep) (b : List α) :
    pieces sep (a ++ sep :: b) = pieces sep a ++ pieces sep b := by
  have hp : ∀ x ∈ a, (x == sep) = false := by simpa using h
  unfold pieces List.splitOn
  rw [List.splitOnP_append_cons_of_forall_mem hp _ (by simp), @List.splitOnP_eq_singleton _ _ a hp]
  by_cases ha : a = [] <;> simp [ha]

theorem exists_eq_append_cons_of_mem {a : List α} (h : sep ∈ a) :
    ∃ a₁ a₂, a = a₁ ++ sep :: a₂ ∧ ∀ x ∈ a₁, x ≠ sep := by
  induction a with
  | nil => simp at h
  | cons x a ih =>
    by_cases hx : x = sep
    · exact ⟨[], a, by rw [hx]; rfl, by simp⟩
    · obtain ⟨a₁, a₂, rfl, ha₁⟩ := ih (by simpa [Ne.symm hx] using h)
      exact ⟨x :: a₁, a₂, rfl, by simpa [hx] using ha₁⟩

theorem pieces_append_cons (a b : List α) :
    pieces sep (a ++ sep :: b) = pieces sep a ++ pieces sep b := by
  induction h : a.length using Nat.strong_induction_on generalizing a with
  | _ n ih =>
    by_cases hsep : sep ∈ a
    · -- the pieces before the first separator of `a`, then those of the rest
      obtain ⟨a₁, a₂, rfl, ha₁⟩ := exists_eq_append_cons_of_mem sep hsep
      have hlt : a₂.length < n := by simp at h; omega
      rw [List.append_assoc, List.cons_append, pieces_append_cons_of_forall_ne sep ha₁,
        ih _ hlt a₂ rfl, pieces_append_cons_of_forall_ne sep ha₁, List.append_assoc]
    · exact pieces_append_cons_of_forall_ne sep (fun x hx hx' ↦ hsep (hx' ▸ hx)) b

theorem pieces_append_singleton (s : List α) : pieces sep (s ++ [sep]) = pieces sep s := by
  simpa using pieces_append_cons sep s []

theorem pieces_rdropWhile (s : List α) : pieces sep (s.rdropWhile (· == sep)) = pieces sep s := by
  induction s using List.reverseRecOn with
  | nil => simp
  | append_singleton s x ih =>
    by_cases hx : x = sep
    · rw [List.rdropWhile_concat_pos _ _ _ (by simp [hx]), ih, hx, pieces_append_singleton]
    · rw [List.rdropWhile_concat_neg _ _ _ (by simp [hx])]

theorem ne_nil_of_mem_pieces {s c : List α} (h : c ∈ pieces sep s) : c ≠ [] := by
  simpa using (List.mem_filter.1 h).2

theorem flatten_pieces (s : List α) : (pieces sep s).flatten = s.filter (· ≠ sep) := by
  induction h : s.length using Nat.strong_induction_on generalizing s with
  | _ n ih =>
    by_cases hsep : sep ∈ s
    · obtain ⟨s₁, s₂, rfl, hs₁⟩ := exists_eq_append_cons_of_mem sep hsep
      have hlt : s₂.length < n := by simp at h; omega
      rw [pieces_append_cons_of_forall_ne sep hs₁, List.flatten_append, ih _ hlt s₂ rfl,
        pieces_of_forall_ne sep hs₁, List.filter_append, List.filter_cons_of_neg (by simp),
        (List.filter_eq_self (l := s₁)).2 fun x hx ↦ by simpa using hs₁ x hx]
      split_ifs with h₁ <;> simp [h₁]
    · have hne : ∀ x ∈ s, x ≠ sep := fun x hx hx' ↦ hsep (hx' ▸ hx)
      rw [pieces_of_forall_ne sep hne, List.filter_eq_self.2 fun x hx ↦ by simpa using hne x hx]
      split_ifs with h₁ <;> simp [h₁]

theorem mem_of_mem_pieces {s c : List α} {x : α} (hc : c ∈ pieces sep s) (hx : x ∈ c) : x ∈ s := by
  have hflat : x ∈ (pieces sep s).flatten := List.mem_flatten.2 ⟨c, hc, hx⟩
  rw [flatten_pieces] at hflat
  exact List.mem_of_mem_filter hflat

theorem pieces_eq_nil_iff {s : List α} : pieces sep s = [] ↔ ∀ x ∈ s, x = sep := by
  constructor
  · intro h x hx
    by_contra hne
    have : x ∈ (pieces sep s).flatten := by
      rw [flatten_pieces]
      exact List.mem_filter.2 ⟨hx, by simpa using hne⟩
    simp [h] at this
  · intro h
    have hflat : (pieces sep s).flatten = [] := by
      rw [flatten_pieces, List.filter_eq_nil_iff]
      simpa using h
    rw [List.flatten_eq_nil_iff] at hflat
    exact List.eq_nil_iff_forall_not_mem.2 fun c hc ↦ ne_nil_of_mem_pieces sep hc (hflat c hc)

/-- The last piece of a list that does not end in a separator is the run after its last
separator. -/
theorem pieces_of_getLast_ne {s : List α} (hs : s ≠ []) (hlast : s.getLast hs ≠ sep) :
    pieces sep s = pieces sep (s.rdropWhile (· != sep)) ++ [s.rtakeWhile (· != sep)] := by
  have hrun : ∀ x ∈ s.rtakeWhile (· != sep), x ≠ sep := fun x hx ↦ by
    simpa using List.mem_rtakeWhile_imp hx
  have hne : s.rtakeWhile (· != sep) ≠ [] := by
    rw [Ne, List.rtakeWhile_eq_nil_iff]
    intro h
    exact hlast (by simpa using h hs)
  conv_lhs => rw [← List.rdropWhile_append_rtakeWhile (p := (· != sep)) (l := s)]
  by_cases hpre : s.rdropWhile (· != sep) = []
  · rw [hpre, List.nil_append, pieces_of_forall_ne sep hrun, if_neg hne, pieces_nil, List.nil_append]
  · -- what comes before the last run ends in the separator
    have hsep : (s.rdropWhile (· != sep)).getLast hpre = sep := by
      simpa using List.rdropWhile_last_not _ _ hpre
    obtain ⟨pre, hpre'⟩ : ∃ pre, s.rdropWhile (· != sep) = pre ++ [sep] :=
      ⟨_, (hsep ▸ List.dropLast_append_getLast hpre).symm⟩
    rw [hpre', List.append_assoc, List.singleton_append, pieces_append_cons,
      pieces_append_singleton, pieces_of_forall_ne sep hrun, if_neg hne]

end Bionic.Lib.Pieces
