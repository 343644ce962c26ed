import Mathlib.Data.List.Find
import Mathlib.Data.List.Nodup
import Bionic.Lib.CString
import Bionic.Stdlib.Strtol

/-!
# The prefix list of `ContextsSplit`

`ContextsSplit::InitializePropertiesFromFile` reads `property_contexts` lines of a prefix and a
context. Each new context string gets one `ContextListNode` (`ListFind` finds the one already
made), and `ListAddAfterLen` puts the prefix into `prefixes_` before the first node with a
shorter prefix or a wildcard one (a prefix that starts with `*`). `GetPrefixNodeForName` returns
the first node that is a wildcard or a prefix of the name.

Over the entries of the lines read, `prefixes_` is the arrangement that the same insertions give
on the entries themselves (`map_resolve_initializeProperties`). When every wildcard prefix is `*`,
that arrangement is the non-wildcard prefixes by non-increasing length, equal lengths in the order
read, followed by the wildcards, newest first (`Arranged`, `arranged_arrange`); the first match is
then the earliest of the longest non-wildcard prefixes of the name, or else the newest wildcard
(`find?_arrange`). A longer wildcard prefix such as `*foo` is put among the prefixes of its
length, ahead of shorter ones, and it then takes every name that they match
(`getPrefixNodeForName_longer_wildcard`). Every prefix node of one context string refers to the
one node of that string (`context_eq_of_resolve`).

Lines are the bytes `getline` returns. The context nodes are their context strings, newest first,
and a prefix node refers to one by the order in which the nodes were made; opening their property
areas is not modelled.
-/

set_option autoImplicit false
set_option relaxedAutoImplicit false

namespace Bionic.SystemProperties

open Bionic.Lib.CString

/-! ## Reading a line -/

/-- `isspace` of a byte of the line. -/
def isSpaceByte (c : UInt8) : Bool := Bionic.Stdlib.Strtol.isspace c.toNat

/-- `read_spec_entry` at `ptr`: skip the spaces, then the entry is the run of bytes up to the next
space or the end of the line; also what follows it. -/
def readSpecEntry (ptr : List UInt8) : List UInt8 × List UInt8 :=
  let start := ptr.dropWhile isSpaceByte
  (start.takeWhile (!isSpaceByte ·), start.dropWhile (!isSpaceByte ·))

/-- The loop of `read_spec_entries` over at most `numArgs` entries, at `buf_p`. -/
def readSpecEntriesLoop : ℕ → List UInt8 → List (List UInt8)
  | 0, _ => []
  | numArgs + 1, bufP =>
    -- at the end of the line
    if bufP = [] then []
    else
      let (entry, rest) := readSpecEntry bufP
      -- an entry is empty only when the rest of the line is blank: the next round stops there
      if entry = [] then [] else entry :: readSpecEntriesLoop numArgs rest

/-- `read_spec_entries`: the entries of a line, at most `numArgs` of them; none for a comment or
an empty line. The line ends at its first zero byte, and a final newline is cut off. -/
def readSpecEntries (lineBuf : List UInt8) (numArgs : ℕ) : List (List UInt8) :=
  let line := lineBuf.takeWhile (· ≠ 0)
  let line := if line.getLast? = some 10 then line.dropLast else line
  let bufP := line.dropWhile isSpaceByte
  -- comment lines and empty lines
  if bufP.head? = some 35 ∨ bufP = [] then [] else readSpecEntriesLoop numArgs bufP

/-! ## The prefix list -/

/-- A prefix that starts with `*`, which matches every name. -/
def isWildcard (prefixStr : List UInt8) : Bool := prefixStr.head? = some 42

/-- `ListAddAfterLen` over nodes whose prefix is `pre`: `x` goes before the first node with a
shorter prefix or a wildcard one. -/
def addAfterLen {α : Type} (pre : α → List UInt8) (x : α) : List α → List α
  | [] => [x]
  | y :: rest =>
    if (pre y).length < (pre x).length ∨ isWildcard (pre y) then x :: y :: rest
    else y :: addAfterLen pre x rest

/-- `PrefixNode`: a prefix (`prefix`) and its `ContextListNode`, given by the order in which the
context nodes were made. -/
structure PrefixNode where
  prefixStr : List UInt8
  context : ℕ
  deriving DecidableEq, Repr

/-- `prefix_len`. -/
def PrefixNode.prefixLen (n : PrefixNode) : ℕ := n.prefixStr.length

/-- `ListAddAfterLen(&prefixes_, prefix, context)`. -/
def listAddAfterLen (prefixStr : List UInt8) (context : ℕ) (list : List PrefixNode) :
    List PrefixNode :=
  addAfterLen PrefixNode.prefixStr ⟨prefixStr, context⟩ list

/-- `ListFind` over `contexts_` for the node of `context`, by the order in which the nodes were
made: the head of the list is the newest. -/
def listFindContext (context : List UInt8) : List (List UInt8) → Option ℕ
  | [] => none
  | c :: rest => if c = context then some rest.length else listFindContext context rest

/-- The lists of a `ContextsSplit`: `prefixes_`, and the context strings of `contexts_`, newest
first. -/
structure ContextsSplit where
  prefixes : List PrefixNode
  contexts : List (List UInt8)
  deriving DecidableEq, Repr

/-- `"ctl."`. -/
def ctlDot : List UInt8 := [99, 116, 108, 46]

namespace ContextsSplit

/-- The entry a line of `property_contexts` gives: its prefix and its context, or nothing for a
comment, an empty line, a line of one entry, or a `ctl.*` prefix, which init does not write to a
file. -/
def lineEntry (line : List UInt8) : Option (List UInt8 × List UInt8) :=
  match readSpecEntries line 2 with
  | [propPrefix, context] =>
    if strncmp propPrefix ctlDot 4 = 0 then none else some (propPrefix, context)
  | _ => none

/-- The rest of the loop body of `InitializePropertiesFromFile`: find or make the node of
`context`, then add the prefix. -/
def addEntry (s : ContextsSplit) (propPrefix context : List UInt8) : ContextsSplit :=
  match listFindContext context s.contexts with
  | some oldContext => { s with prefixes := listAddAfterLen propPrefix oldContext s.prefixes }
  | none =>
    { prefixes := listAddAfterLen propPrefix s.contexts.length s.prefixes
      contexts := context :: s.contexts }

/-- The body of the loop of `InitializePropertiesFromFile` over one line. -/
def initializePropertiesLine (s : ContextsSplit) (line : List UInt8) : ContextsSplit :=
  match lineEntry line with
  | some (propPrefix, context) => s.addEntry propPrefix context
  | none => s

/-- `InitializePropertiesFromFile`, with the lines of the file (`none` when it does not open). -/
def initializePropertiesFromFile (file : Option (List (List UInt8))) (s : ContextsSplit) :
    Bool × ContextsSplit :=
  match file with
  | none => (false, s)
  | some lines => (true, lines.foldl initializePropertiesLine s)

/-- `GetPrefixNodeForName`. -/
def getPrefixNodeForName (s : ContextsSplit) (name : List UInt8) : Option PrefixNode :=
  s.prefixes.find? fun l ↦ isWildcard l.prefixStr || strncmp l.prefixStr name l.prefixLen == 0

/-- The context string of a node's `ContextListNode`. -/
def contextOf (s : ContextsSplit) (n : PrefixNode) : List UInt8 :=
  s.contexts.reverse.getD n.context []

/-- A node as its prefix and context string. -/
def resolve (s : ContextsSplit) (n : PrefixNode) : List UInt8 × List UInt8 :=
  (n.prefixStr, s.contextOf n)

/-- Before any file is read. -/
def empty : ContextsSplit := ⟨[], []⟩

end ContextsSplit

/-! ## Where `ListAddAfterLen` inserts -/

section AddAfterLen

variable {α : Type} (pre : α → List UInt8) (x : α)

theorem addAfterLen_append_of_wildcard (A B : List α) (hB : ∀ y ∈ B.head?, isWildcard (pre y)) :
    addAfterLen pre x (A ++ B) = addAfterLen pre x A ++ B := by
  induction A with
  | nil =>
    cases B with
    | nil => rfl
    | cons y B => simp [addAfterLen, hB y rfl]
  | cons a A ih =>
    simp only [List.cons_append, addAfterLen]
    split_ifs <;> simp [ih]

theorem addAfterLen_of_forall_le (A : List α)
    (hA : ∀ y ∈ A, (pre x).length ≤ (pre y).length ∧ isWildcard (pre y) = false) :
    addAfterLen pre x A = A ++ [x] := by
  induction A with
  | nil => rfl
  | cons a A ih =>
    obtain ⟨hlen, hwild⟩ := hA a List.mem_cons_self
    have hstop : ¬ ((pre a).length < (pre x).length ∨ isWildcard (pre a)) := by
      simp only [hwild, Bool.false_eq_true, or_false, not_lt]
      exact hlen
    rw [addAfterLen, if_neg hstop, ih fun y hy ↦ hA y (List.mem_cons_of_mem _ hy), List.cons_append]

theorem addAfterLen_eq_takeWhile (A : List α) (hA : ∀ y ∈ A, isWildcard (pre y) = false) :
    addAfterLen pre x A =
      A.takeWhile (fun y ↦ decide ((pre x).length ≤ (pre y).length)) ++
        x :: A.dropWhile (fun y ↦ decide ((pre x).length ≤ (pre y).length)) := by
  induction A with
  | nil => rfl
  | cons a A ih =>
    have hwild := hA a List.mem_cons_self
    rw [addAfterLen, ih fun y hy ↦ hA y (List.mem_cons_of_mem _ hy)]
    by_cases hlen : (pre x).length ≤ (pre a).length
    · rw [if_neg (by simp [hwild, hlen])]
      simp [hlen]
    · rw [if_pos (Or.inl (by omega))]
      simp [hlen]

theorem map_addAfterLen {β : Type} (pre' : β → List UInt8) (f : α → β)
    (hf : ∀ y, pre' (f y) = pre y) (A : List α) :
    (addAfterLen pre x A).map f = addAfterLen pre' (f x) (A.map f) := by
  induction A with
  | nil => rfl
  | cons a A ih =>
    simp only [addAfterLen, List.map_cons, hf]
    split_ifs <;> simp [ih]

end AddAfterLen

/-! ## What the prefix list is for -/

/-- An entry of `property_contexts`: a prefix and a context. -/
abbrev Entry := List UInt8 × List UInt8

/-- The list the insertions of `ListAddAfterLen` give on the entries themselves. -/
def arrange (entries : List Entry) : List Entry :=
  entries.foldl (fun l e ↦ addAfterLen Prod.fst e l) []

/-- The earliest of the entries whose prefix is a longest non-wildcard prefix of `name`. -/
def longestPrefix (name : List UInt8) (entries : List Entry) : Option Entry :=
  entries.foldl (fun best e ↦
    if !isWildcard e.1 && e.1.isPrefixOf name && best.all (·.1.length < e.1.length) then some e
    else best) none

/-- The newest wildcard entry. -/
def newestWildcard (entries : List Entry) : Option Entry :=
  (entries.filter (isWildcard ·.1)).getLast?

/-- The first entry that the test of `GetPrefixNodeForName` accepts. -/
def firstMatch (name : List UInt8) (l : List Entry) : Option Entry :=
  l.find? fun e ↦ isWildcard e.1 || e.1.isPrefixOf name

theorem arrange_append_singleton (entries : List Entry) (x : Entry) :
    arrange (entries ++ [x]) = addAfterLen Prod.fst x (arrange entries) := by
  simp [arrange]

theorem longestPrefix_append_singleton (name : List UInt8) (entries : List Entry) (x : Entry) :
    longestPrefix name (entries ++ [x]) =
      if !isWildcard x.1 && x.1.isPrefixOf name &&
          (longestPrefix name entries).all (·.1.length < x.1.length) then some x
      else longestPrefix name entries := by
  simp [longestPrefix]

/-- The front of the list, before the wildcards, when every wildcard prefix is `*`: non-wildcard
entries by non-increasing length, those of one length in the order read, whose first prefix of a
name is the earliest of the longest. -/
structure Arranged (entries front : List Entry) : Prop where
  sorted : front.Pairwise fun a b ↦ b.1.length ≤ a.1.length
  stable : ∀ k, front.filter (·.1.length == k) =
    entries.filter fun e ↦ !isWildcard e.1 && e.1.length == k
  first : ∀ name, front.find? (·.1.isPrefixOf name) = longestPrefix name entries

namespace Arranged

variable {entries front : List Entry}

theorem mem (h : Arranged entries front) {e : Entry} (he : e ∈ front) :
    e ∈ entries ∧ isWildcard e.1 = false := by
  have hk : e ∈ front.filter (·.1.length == e.1.length) := List.mem_filter.2 ⟨he, by simp⟩
  rw [h.stable] at hk
  simpa using hk

theorem nil : Arranged [] [] :=
  ⟨List.Pairwise.nil, fun _ ↦ rfl, fun _ ↦ rfl⟩

theorem append_wildcard (h : Arranged entries front) {x : Entry} (hx : isWildcard x.1 = true) :
    Arranged (entries ++ [x]) front where
  sorted := h.sorted
  stable k := by simp [h.stable k, hx]
  first name := by rw [longestPrefix_append_singleton, h.first name]; simp [hx]

theorem addAfterLen (h : Arranged entries front) {x : Entry} (hx : isWildcard x.1 = false) :
    Arranged (entries ++ [x]) (addAfterLen Prod.fst x front) := by
  rw [addAfterLen_eq_takeWhile Prod.fst x front fun y hy ↦ (h.mem hy).2]
  set T := front.takeWhile fun y ↦ decide (x.1.length ≤ y.1.length)
  set D := front.dropWhile (fun y ↦ decide (x.1.length ≤ y.1.length)) with hDdef
  have hsplit : front = T ++ D := List.takeWhile_append_dropWhile.symm
  have hsorted := h.sorted
  rw [hsplit, List.pairwise_append] at hsorted
  obtain ⟨hTsorted, hDsorted, hTD⟩ := hsorted
  -- the entries before the slot are at least as long as `x`, those after it shorter
  have hT : ∀ a ∈ T, x.1.length ≤ a.1.length := fun a ha ↦ by
    simpa using List.mem_takeWhile_imp ha
  have hD : ∀ b ∈ D, b.1.length < x.1.length := by
    intro b hb
    obtain ⟨d, D', hDeq⟩ := List.exists_cons_of_ne_nil (List.ne_nil_of_mem hb)
    -- the first entry after the slot is shorter than `x`, and the later ones no longer than it
    have hd := List.head?_dropWhile_not (fun y : Entry ↦ decide (x.1.length ≤ y.1.length)) front
    rw [← hDdef, hDeq] at hd
    simp only [List.head?_cons, decide_eq_false_iff_not, not_le] at hd
    rw [hDeq, List.pairwise_cons] at hDsorted
    rw [hDeq] at hb
    rcases List.mem_cons.1 hb with rfl | hb
    · exact hd
    · exact lt_of_le_of_lt (hDsorted.1 b hb) hd
  refine ⟨?sorted, ?stable, ?first⟩
  case sorted =>
    refine List.pairwise_append.2 ⟨hTsorted, List.pairwise_cons.2 ⟨fun b hb ↦ (hD b hb).le, hDsorted⟩, ?_⟩
    intro a ha b hb
    rcases List.mem_cons.1 hb with rfl | hb
    · exact hT a ha
    · exact hTD a ha b hb
  case stable =>
    intro k
    have hk := h.stable k
    rw [hsplit, List.filter_append] at hk
    rw [List.filter_append, List.filter_append, ← hk, List.filter_cons]
    by_cases hxk : x.1.length = k
    · -- `x` joins the entries of its length, after all of them
      have hDk : D.filter (·.1.length == k) = [] :=
        List.filter_eq_nil_iff.2 fun b hb ↦ by have := hD b hb; simp; omega
      simp [hxk, hx, hDk]
    · simp [hxk]
  case first =>
    intro name
    rw [longestPrefix_append_singleton, ← h.first name, hsplit, List.find?_append,
      List.find?_append, List.find?_cons]
    cases hTfind : T.find? (·.1.isPrefixOf name) with
    | some t =>
      -- a match before the slot is at least as long as `x`, and stays first
      have ht := hT t (List.mem_of_find?_eq_some hTfind)
      simp [hx, Nat.not_lt.2 ht]
    | none =>
      cases hDfind : D.find? (·.1.isPrefixOf name) with
      | some d =>
        have hd := hD d (List.mem_of_find?_eq_some hDfind)
        by_cases hxname : x.1.isPrefixOf name <;> simp [hxname, hx, hd]
      | none => by_cases hxname : x.1.isPrefixOf name <;> simp [hxname, hx]

end Arranged

/-- **The arrangement when every wildcard prefix is `*`.** The list the insertions give is an
arranged front followed by the wildcard entries, newest first. -/
theorem arranged_arrange (entries : List Entry) (hne : ∀ e ∈ entries, e.1 ≠ [])
    (hwild : ∀ e ∈ entries, isWildcard e.1 = true → e.1 = [42]) :
    ∃ front, arrange entries = front ++ (entries.filter (isWildcard ·.1)).reverse ∧
      Arranged entries front := by
  induction entries using List.reverseRecOn with
  | nil => exact ⟨[], rfl, Arranged.nil⟩
  | append_singleton entries x ih =>
    obtain ⟨front, hlist, harr⟩ := ih (fun e he ↦ hne e (by simp [he]))
      (fun e he ↦ hwild e (by simp [he]))
    have hrev : ∀ y ∈ (entries.filter (isWildcard ·.1)).reverse.head?, isWildcard y.1 := by
      intro y hy
      rw [List.head?_reverse] at hy
      simpa using (List.mem_filter.1 (List.mem_of_getLast? hy)).2
    rw [arrange_append_singleton, hlist, addAfterLen_append_of_wildcard Prod.fst x _ _ hrev]
    cases hx : isWildcard x.1 with
    | false =>
      exact ⟨_, by simp [hx], harr.addAfterLen hx⟩
    | true =>
      -- `*` is no longer than any prefix, so it goes after the whole front
      have hstar : x.1 = [42] := hwild x (by simp) hx
      have hlast : addAfterLen Prod.fst x front = front ++ [x] := by
        refine addAfterLen_of_forall_le Prod.fst x front fun y hy ↦ ⟨?_, (harr.mem hy).2⟩
        have hy' : y.1 ≠ [] := hne y (by simp [(harr.mem hy).1])
        rw [hstar]
        exact List.length_pos_iff.2 hy'
      exact ⟨front, by simp [hlast, hx], harr.append_wildcard hx⟩

/-- **The first match when every wildcard prefix is `*`**: the earliest of the longest
non-wildcard prefixes of the name, or else the newest wildcard. -/
theorem firstMatch_arrange (entries : List Entry) (hne : ∀ e ∈ entries, e.1 ≠ [])
    (hwild : ∀ e ∈ entries, isWildcard e.1 = true → e.1 = [42]) (name : List UInt8) :
    firstMatch name (arrange entries) = (longestPrefix name entries).or (newestWildcard entries) := by
  obtain ⟨front, hlist, harr⟩ := arranged_arrange entries hne hwild
  -- no entry of the front is a wildcard, so the test there is the prefix test
  have hfront : front.find? (fun e ↦ isWildcard e.1 || e.1.isPrefixOf name) =
      front.find? (·.1.isPrefixOf name) :=
    List.find?_congr fun e he ↦ by simp [(harr.mem he).2]
  rw [firstMatch, hlist, List.find?_append, hfront, harr.first name]
  congr 1
  -- every entry after the front is a wildcard, so the first of them is taken
  rw [newestWildcard, ← List.head?_reverse]
  cases hrev : (entries.filter (isWildcard ·.1)).reverse with
  | nil => rfl
  | cons y rest =>
    have hy : y ∈ entries.filter (isWildcard ·.1) := by
      rw [← List.mem_reverse, hrev]
      exact List.mem_cons_self
    simp [(List.mem_filter.1 hy).2]

/-! ## The entries of the lines -/

theorem readSpecEntry_subset (ptr : List UInt8) :
    (readSpecEntry ptr).1 ⊆ ptr ∧ (readSpecEntry ptr).2 ⊆ ptr := by
  have hstart := (List.dropWhile_sublist isSpaceByte (l := ptr)).subset
  exact ⟨List.Subset.trans (List.takeWhile_sublist _).subset hstart,
    List.Subset.trans (List.dropWhile_sublist _).subset hstart⟩

theorem mem_readSpecEntriesLoop (numArgs : ℕ) (bufP : List UInt8) :
    ∀ e ∈ readSpecEntriesLoop numArgs bufP, e ≠ [] ∧ e ⊆ bufP := by
  induction numArgs generalizing bufP with
  | zero => simp [readSpecEntriesLoop]
  | succ numArgs ih =>
    intro e he
    obtain ⟨hentry, hrest⟩ := readSpecEntry_subset bufP
    simp only [readSpecEntriesLoop] at he
    split_ifs at he with hend hempty
    · simp at he
    · simp at he
    · rcases List.mem_cons.1 he with rfl | he
      · exact ⟨hempty, hentry⟩
      · obtain ⟨hne, hsub⟩ := ih _ e he
        exact ⟨hne, List.Subset.trans hsub hrest⟩

theorem mem_readSpecEntries {lineBuf : List UInt8} {numArgs : ℕ} {e : List UInt8}
    (he : e ∈ readSpecEntries lineBuf numArgs) : e ≠ [] ∧ 0 ∉ e := by
  simp only [readSpecEntries] at he
  -- the bytes are those of the line before its first zero byte
  generalize hline : (if (lineBuf.takeWhile (· ≠ 0)).getLast? = some 10 then
    (lineBuf.takeWhile (· ≠ 0)).dropLast else lineBuf.takeWhile (· ≠ 0)) = line at he
  have hcut : line ⊆ lineBuf.takeWhile (· ≠ 0) := by
    rw [← hline]
    split_ifs
    · exact (List.dropLast_sublist _).subset
    · exact List.Subset.refl _
  split_ifs at he with hskip
  · simp at he
  · obtain ⟨hne, hsub⟩ := mem_readSpecEntriesLoop numArgs _ e he
    refine ⟨hne, fun hzero ↦ ?_⟩
    have hmem := hcut ((List.dropWhile_sublist _).subset (hsub hzero))
    simpa using List.mem_takeWhile_imp hmem

namespace ContextsSplit

theorem lineEntry_propPrefix_valid {line : List UInt8} {e : Entry} (h : lineEntry line = some e) :
    e.1 ≠ [] ∧ 0 ∉ e.1 := by
  simp only [lineEntry] at h
  split at h
  · rename_i propPrefix context hentries
    split_ifs at h
    cases h
    exact mem_readSpecEntries (by rw [hentries]; exact List.mem_cons_self)
  · cases h

end ContextsSplit

/-! ## The context nodes -/

theorem getD_reverse_cons_of_lt {c : List UInt8} {cs : List (List UInt8)} {i : ℕ}
    (hi : i < cs.length) : (c :: cs).reverse.getD i [] = cs.reverse.getD i [] := by
  rw [List.reverse_cons, List.getD_append _ _ _ _ (by simpa using hi)]

theorem getD_reverse_cons_length (c : List UInt8) (cs : List (List UInt8)) :
    (c :: cs).reverse.getD cs.length [] = c := by
  rw [List.reverse_cons, List.getD_append_right _ _ _ _ (by simp)]
  simp

theorem listFindContext_eq_some {context : List UInt8} {cs : List (List UInt8)} {i : ℕ}
    (h : listFindContext context cs = some i) : i < cs.length ∧ cs.reverse.getD i [] = context := by
  induction cs with
  | nil => simp [listFindContext] at h
  | cons c cs ih =>
    simp only [listFindContext] at h
    split_ifs at h with hc
    · cases h
      exact ⟨by simp, hc ▸ getD_reverse_cons_length c cs⟩
    · obtain ⟨hi, hget⟩ := ih h
      exact ⟨by simp; omega, by rw [getD_reverse_cons_of_lt hi, hget]⟩

theorem listFindContext_eq_none {context : List UInt8} {cs : List (List UInt8)}
    (h : listFindContext context cs = none) : context ∉ cs := by
  induction cs with
  | nil => simp
  | cons c cs ih =>
    simp only [listFindContext] at h
    split_ifs at h with hc
    simp only [List.mem_cons, not_or]
    exact ⟨Ne.symm hc, ih h⟩

theorem mem_addAfterLen {α : Type} {pre : α → List UInt8} {x y : α} {l : List α} :
    y ∈ addAfterLen pre x l ↔ y = x ∨ y ∈ l := by
  induction l with
  | nil => simp [addAfterLen]
  | cons a l ih =>
    simp only [addAfterLen]
    split_ifs <;> simp [ih, or_left_comm]

/-! ## The model refines the arrangement -/

namespace ContextsSplit

/-- What holds after any lines read: every node refers to a context node that exists, there is one
context node for each context string, no prefix has a zero byte, and the nodes read as entries
are the arrangement of the entries read. -/
structure Refines (s : ContextsSplit) (entries : List Entry) : Prop where
  context_lt : ∀ n ∈ s.prefixes, n.context < s.contexts.length
  nodup : s.contexts.Nodup
  no_zero : ∀ n ∈ s.prefixes, 0 ∉ n.prefixStr
  arrange_eq : s.prefixes.map s.resolve = arrange entries

theorem refines_empty : Refines empty [] :=
  ⟨by simp [empty], List.nodup_nil, by simp [empty], rfl⟩

theorem resolve_cons {s : ContextsSplit} {n : PrefixNode} (context : List UInt8) (prefixes : List PrefixNode)
    (hn : n.context < s.contexts.length) :
    resolve ⟨prefixes, context :: s.contexts⟩ n = s.resolve n := by
  simp only [resolve, contextOf, getD_reverse_cons_of_lt hn]

theorem resolve_with_prefixes (s : ContextsSplit) (prefixes : List PrefixNode) :
    ({ s with prefixes := prefixes } : ContextsSplit).resolve = s.resolve := rfl

theorem map_resolve_addAfterLen (s : ContextsSplit) (x : PrefixNode) (l : List PrefixNode) :
    (addAfterLen PrefixNode.prefixStr x l).map s.resolve =
      addAfterLen Prod.fst (s.resolve x) (l.map s.resolve) :=
  map_addAfterLen PrefixNode.prefixStr x Prod.fst s.resolve (fun _ ↦ rfl) l

theorem Refines.addEntry {s : ContextsSplit} {entries : List Entry} (h : Refines s entries)
    {propPrefix context : List UInt8} (hzero : 0 ∉ propPrefix) :
    Refines (s.addEntry propPrefix context) (entries ++ [(propPrefix, context)]) := by
  cases hfind : listFindContext context s.contexts with
  | some i =>
    -- the node of `context` is there already
    obtain ⟨hi, hget⟩ := listFindContext_eq_some hfind
    simp only [ContextsSplit.addEntry, hfind]
    refine ⟨fun n hn ↦ ?_, h.nodup, fun n hn ↦ ?_, ?_⟩
    · rcases mem_addAfterLen.1 hn with rfl | hn
      · exact hi
      · exact h.context_lt n hn
    · rcases mem_addAfterLen.1 hn with rfl | hn
      · exact hzero
      · exact h.no_zero n hn
    · simp only [listAddAfterLen, map_resolve_addAfterLen, arrange_append_singleton,
        ← h.arrange_eq, resolve_with_prefixes]
      congr 1
      simp only [resolve, contextOf, hget]
  | none =>
    -- a new context node, the newest
    have hnew := listFindContext_eq_none hfind
    simp only [ContextsSplit.addEntry, hfind]
    refine ⟨fun n hn ↦ ?_, List.nodup_cons.2 ⟨hnew, h.nodup⟩, fun n hn ↦ ?_, ?_⟩
    · rcases mem_addAfterLen.1 hn with rfl | hn
      · simp
      · have := h.context_lt n hn
        simp only [List.length_cons]
        omega
    · rcases mem_addAfterLen.1 hn with rfl | hn
      · exact hzero
      · exact h.no_zero n hn
    · simp only [listAddAfterLen, map_resolve_addAfterLen, arrange_append_singleton,
        ← h.arrange_eq]
      rw [List.map_congr_left fun n hn ↦ resolve_cons context _ (h.context_lt n hn)]
      congr 1
      simp only [resolve, contextOf, getD_reverse_cons_length]

theorem Refines.foldl {s : ContextsSplit} {entries : List Entry} (h : Refines s entries)
    (lines : List (List UInt8)) :
    Refines (lines.foldl initializePropertiesLine s) (entries ++ lines.filterMap lineEntry) := by
  induction lines generalizing s entries with
  | nil => simpa using h
  | cons line lines ih =>
    rw [List.foldl_cons, List.filterMap_cons]
    cases hline : lineEntry line with
    | none => simpa [initializePropertiesLine, hline] using ih h
    | some e =>
      have hstep : Refines (s.addEntry e.1 e.2) (entries ++ [(e.1, e.2)]) :=
        h.addEntry (lineEntry_propPrefix_valid hline).2
      simpa [initializePropertiesLine, hline] using ih hstep

theorem Refines.getPrefixNodeForName {s : ContextsSplit} {entries : List Entry}
    (h : Refines s entries) (name : List UInt8) :
    (s.getPrefixNodeForName name).map s.resolve = firstMatch name (arrange entries) := by
  rw [firstMatch, ← h.arrange_eq, List.find?_map, ContextsSplit.getPrefixNodeForName]
  congr 1
  -- on prefixes without a zero byte, `strncmp` over the prefix's length tests for a prefix
  refine List.find?_congr fun n hn ↦ ?_
  have hiff := strncmp_length_eq_zero_iff (h.no_zero n hn) name
  simp only [Function.comp, resolve, PrefixNode.prefixLen]
  by_cases hpre : n.prefixStr <+: name
  · simp [hiff.2 hpre, List.isPrefixOf_iff_prefix.2 hpre]
  · have hne : strncmp n.prefixStr name n.prefixStr.length ≠ 0 := fun h0 ↦ hpre (hiff.1 h0)
    have hnot : n.prefixStr.isPrefixOf name = false :=
      Bool.eq_false_iff.2 fun htrue ↦ hpre (List.isPrefixOf_iff_prefix.1 htrue)
    simp [hne, hnot]

theorem Refines.context_eq_of_resolve {s : ContextsSplit} {entries : List Entry}
    (h : Refines s entries) {n₁ n₂ : PrefixNode} (h₁ : n₁ ∈ s.prefixes) (h₂ : n₂ ∈ s.prefixes)
    (heq : s.contextOf n₁ = s.contextOf n₂) : n₁.context = n₂.context := by
  have hlt₁ : n₁.context < s.contexts.reverse.length := by simpa using h.context_lt n₁ h₁
  have hlt₂ : n₂.context < s.contexts.reverse.length := by simpa using h.context_lt n₂ h₂
  simp only [contextOf, List.getD_eq_getElem _ _ hlt₁, List.getD_eq_getElem _ _ hlt₂] at heq
  exact (List.nodup_reverse.2 h.nodup).getElem_inj_iff.1 heq

/-- `InitializePropertiesFromFile` over each file in turn, from before any. -/
def readFiles (files : List (List (List UInt8))) : ContextsSplit :=
  files.foldl (fun s lines ↦ (s.initializePropertiesFromFile (some lines)).2) empty

/-- The entries of the lines of the files, in the order read. -/
def fileEntries (files : List (List (List UInt8))) : List Entry :=
  files.flatten.filterMap lineEntry

theorem refines_readFiles (files : List (List (List UInt8))) :
    Refines (readFiles files) (fileEntries files) := by
  have hrun := refines_empty.foldl files.flatten
  rw [List.foldl_flatten] at hrun
  simpa [readFiles, fileEntries, initializePropertiesFromFile] using hrun


/-! ## The prefix node of a name -/

/-- **`GetPrefixNodeForName` when every wildcard prefix is `*`.** After any files read in turn,
the node for a name is that of the earliest of the longest non-wildcard prefixes of the name, or
else that of the newest wildcard, or none; `prefixes_` holds the non-wildcard prefixes by
non-increasing length, equal lengths in the order read, and then the wildcards; and two nodes
have one context string exactly when they share one context node. -/
theorem getPrefixNodeForName_readFiles (files : List (List (List UInt8)))
    (hwild : ∀ e ∈ fileEntries files, isWildcard e.1 = true → e.1 = [42]) :
    (∀ name, ((readFiles files).getPrefixNodeForName name).map (readFiles files).resolve =
      (longestPrefix name (fileEntries files)).or (newestWildcard (fileEntries files))) ∧
    (∃ front, (readFiles files).prefixes.map (readFiles files).resolve =
        front ++ ((fileEntries files).filter (isWildcard ·.1)).reverse ∧
      Arranged (fileEntries files) front) ∧
    ∀ n₁ ∈ (readFiles files).prefixes, ∀ n₂ ∈ (readFiles files).prefixes,
      (readFiles files).contextOf n₁ = (readFiles files).contextOf n₂ ↔ n₁.context = n₂.context := by
  have href := refines_readFiles files
  -- the prefixes of the lines are never empty
  have hne : ∀ e ∈ fileEntries files, e.1 ≠ [] := fun e he ↦ by
    obtain ⟨line, -, hline⟩ := List.mem_filterMap.1 he
    exact (lineEntry_propPrefix_valid hline).1
  refine ⟨fun name ↦ ?_, ?_, fun n₁ h₁ n₂ h₂ ↦ ⟨href.context_eq_of_resolve h₁ h₂, fun h ↦ ?_⟩⟩
  · rw [href.getPrefixNodeForName, firstMatch_arrange _ hne hwild]
  · rw [href.arrange_eq]
    exact arranged_arrange _ hne hwild
  · simp [contextOf, h]

/-- The lines `a x`, `* y` and `ab z`. -/
def sampleContexts : List (List (List UInt8)) :=
  [[[97, 32, 120, 10], [42, 32, 121, 10], [97, 98, 32, 122, 10]]]

theorem getPrefixNodeForName_readFiles_sample :
    (∀ e ∈ fileEntries sampleContexts, isWildcard e.1 = true → e.1 = [42]) ∧
    (∀ name, ((readFiles sampleContexts).getPrefixNodeForName name).map
        (readFiles sampleContexts).resolve =
      (longestPrefix name (fileEntries sampleContexts)).or
        (newestWildcard (fileEntries sampleContexts))) ∧
    (∃ front, (readFiles sampleContexts).prefixes.map (readFiles sampleContexts).resolve =
        front ++ ((fileEntries sampleContexts).filter (isWildcard ·.1)).reverse ∧
      Arranged (fileEntries sampleContexts) front) ∧
    ∀ n₁ ∈ (readFiles sampleContexts).prefixes, ∀ n₂ ∈ (readFiles sampleContexts).prefixes,
      (readFiles sampleContexts).contextOf n₁ = (readFiles sampleContexts).contextOf n₂ ↔
        n₁.context = n₂.context := by
  have hentries : fileEntries sampleContexts = [([97], [120]), ([42], [121]), ([97, 98], [122])] :=
    by decide
  have hwild : ∀ e ∈ fileEntries sampleContexts, isWildcard e.1 = true → e.1 = [42] := by
    rw [hentries]
    simp [isWildcard]
  exact ⟨hwild, getPrefixNodeForName_readFiles sampleContexts hwild⟩

/-- The lines `ab x` and `*foo y`. -/
def longerWildcardContexts : List (List (List UInt8)) :=
  [[[97, 98, 32, 120, 10], [42, 102, 111, 111, 32, 121, 10]]]

/-- A wildcard prefix longer than `*` goes ahead of the shorter prefixes: after `ab x` and
`*foo y`, the name `abc` gets the node of `*foo` and not that of `ab`, its longest prefix. -/
theorem getPrefixNodeForName_longer_wildcard :
    ((readFiles longerWildcardContexts).getPrefixNodeForName [97, 98, 99]).map
        (readFiles longerWildcardContexts).resolve = some ([42, 102, 111, 111], [121]) ∧
      longestPrefix [97, 98, 99] (fileEntries longerWildcardContexts) = some ([97, 98], [120]) := by
  decide

end ContextsSplit

end Bionic.SystemProperties
