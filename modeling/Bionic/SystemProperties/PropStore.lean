import Bionic.SystemProperties.PropTrie
import Bionic.Lib.FindOrAdd

/-!
# The property area as a store

A `prop_area` holds a store of properties: the `prop_info` its trie leads to from each path of
segments (`PropArea.store`). `PropArea.Valid` is the invariant of every area the constructor and
`add` make: the root node as the constructor leaves it, every level ordered (`PropTrieNode.Wf`),
and every `prop_info` stored under the segments of its own name.

`find` of a C string reads the store at its segments (`PropArea.find_eq`). `add` of a name whose
segments are not empty is one find-or-add on the store (`PropArea.add_step`): it finds the
property that is there and then changes nothing at all (`PropArea.add_of_find`), adds a new one
under the name, or fails and leaves every `find` as it was (`PropArea.find_add_of_false`). A run of
adds from the constructor is a run of the library's find-or-adds (`PropArea.addAll_run`).

`foreach` hands the callback every stored property once, in the order of the segments of its
name, compared segment by segment with `cmp_prop_name` and a name before its extensions
(`PropArea.mem_foreach`, `PropArea.foreach_pairwise`, `PropArea.foreach_nodup`).
-/

set_option autoImplicit false
set_option relaxedAutoImplicit false

namespace Bionic.SystemProperties

open Bionic.Lib.CString Bionic.Lib.Bst Bionic.Lib.FindOrAdd

/-! ### Names and their segments -/

theorem subset_of_mem_splitOn {name s : List UInt8} (hs : s ∈ name.splitOn 46) : s ⊆ name := by
  -- a segment is a piece of the name, which is its segments joined by dots
  have hpiece : ∀ pieces : List (List UInt8), s ∈ pieces → s ⊆ [46].intercalate pieces := by
    intro pieces
    induction pieces with
    | nil => simp
    | cons piece pieces ih =>
      intro hmem
      cases pieces with
      | nil =>
        rw [List.intercalate_singleton, List.mem_singleton.mp hmem]
        exact List.Subset.refl _
      | cons next pieces =>
        rw [List.intercalate_cons_cons]
        rcases List.mem_cons.mp hmem with rfl | hmem
        · exact List.subset_append_of_subset_left _ (List.subset_append_left _ _)
        · exact List.subset_append_of_subset_right _ (ih hmem)
  have h := hpiece _ hs
  rwa [List.intercalate_splitOn] at h

theorem eq_of_splitOn_eq {name name' : List UInt8} (h : name.splitOn 46 = name'.splitOn 46) :
    name = name' := by
  calc name = [46].intercalate (name.splitOn 46) := (List.intercalate_splitOn 46).symm
    _ = [46].intercalate (name'.splitOn 46) := by rw [h]
    _ = name' := List.intercalate_splitOn 46

/-- A name `add` is given: a C string whose `.`-separated segments are not empty. -/
def ValidName (name : List UInt8) : Prop :=
  0 ∉ name ∧ ∀ s ∈ name.splitOn 46, s ≠ []

instance : DecidablePred ValidName := fun _ ↦ inferInstanceAs (Decidable (_ ∧ _))

theorem ValidName.segments {name : List UInt8} (hname : ValidName name) :
    ∀ s ∈ name.splitOn 46, 0 ∉ s ∧ s ≠ [] :=
  fun s hs ↦ ⟨fun h0 ↦ hname.1 (subset_of_mem_splitOn hs h0), hname.2 s hs⟩

/-! ### The store of an area -/

/-- The tree of the children of the root node. -/
def PropArea.children (area : PropArea) : PropTrieNode :=
  match area.root with
  | .nil => .nil
  | .node _ _ _ _ children => children

/-- The properties of an area, by the segments of their names. -/
def PropArea.store (area : PropArea) : List (List UInt8) → Option PropInfo :=
  lookupPath (none, area.children)

/-- The key a property is stored under: the segments of its name. -/
def PropInfo.path (info : PropInfo) : List (List UInt8) := info.name.splitOn 46

/-- The invariant of the areas `add` makes from the constructor's: the root node is the one the
constructor leaves, every level of the trie is ordered, and every stored property is a C string
stored under the segments of its name, none of them empty. -/
structure PropArea.Valid (area : PropArea) : Prop where
  root_eq : area.root = .node [] none .nil .nil area.children
  wf : area.children.Wf
  keyed : Keyed PropInfo.path area.store
  name_ok : ∀ path info, area.store path = some info → 0 ∉ info.name
  segments_ne_nil : ∀ path info, area.store path = some info → ∀ s ∈ path, s ≠ []

theorem PropArea.valid_init (paDataSize : ℕ) : (PropArea.init paDataSize).Valid := by
  -- the constructor's area stores nothing
  have hempty : (PropArea.init paDataSize).store = fun _ ↦ none := funext lookupPath_empty
  refine ⟨rfl, PropTrieNode.wf_nil, ?_, ?_, ?_⟩ <;>
    · intro path info h
      rw [hempty] at h
      cases h

/-! ### `find` -/

theorem PropArea.find_eq {area : PropArea} (hv : area.Valid) {name : List UInt8}
    (hname : 0 ∉ name) :
    area.find name =
      if ∀ s ∈ name.splitOn (46 : UInt8), s ≠ [] then area.store (name.splitOn 46) else none := by
  have hreads := findPropertyLoop_reads area.paDataSize name name.length [] 0
    (List.splitOn_ne_nil 46 name) fun s hs h0 ↦ hname (subset_of_mem_splitOn hs h0)
  unfold PropArea.find findProperty
  rw [hv.root_eq, visit_node, hreads (none, area.children) area.bytesUsed hv.wf]
  rfl

theorem PropArea.find_of_validName {area : PropArea} (hv : area.Valid) {name : List UInt8}
    (hname : ValidName name) : area.find name = area.store (name.splitOn 46) := by
  rw [area.find_eq hv hname.1, if_pos hname.2]

theorem PropArea.name_of_find {area : PropArea} (hv : area.Valid) {name : List UInt8}
    (hname : 0 ∉ name) {info : PropInfo} (h : area.find name = some info) : info.name = name := by
  rw [area.find_eq hv hname] at h
  split_ifs at h
  exact eq_of_splitOn_eq (hv.keyed _ _ h)

/-! ### `add` -/

section Add

variable {area : PropArea} (hv : area.Valid) {name : List UInt8} (hname : ValidName name)
  (value : List UInt8) (valuelen : ℕ)

/-- What the loop of `find_property` in `add` does from the root. -/
def PropArea.addLoop (area : PropArea) (name value : List UInt8) (valuelen : ℕ) :
    (Option PropInfo × PropTrieNode) × Option PropInfo × ℕ :=
  findPropertyLoop area.paDataSize name name.length value valuelen true (name.splitOn 46)
    (none, area.children) area.bytesUsed

include hv in
theorem PropArea.add_eq :
    area.add name name.length value valuelen =
      ({ area with
          root := .node [] (area.addLoop name value valuelen).1.1 .nil .nil
            (area.addLoop name value valuelen).1.2
          bytesUsed := (area.addLoop name value valuelen).2.2 },
        (area.addLoop name value valuelen).2.1.isSome) := by
  unfold PropArea.add findProperty
  rw [hv.root_eq, visit_node]
  rfl

include hname in
theorem PropArea.addLoop_adds :
    AddsPath name name.length (name.splitOn 46)
      (findPropertyLoop area.paDataSize name name.length value valuelen true (name.splitOn 46)) :=
  findPropertyLoop_adds area.paDataSize name name.length value valuelen
    (List.splitOn_ne_nil 46 name) hname.segments

include hv hname

theorem PropArea.addLoop_prop : (area.addLoop name value valuelen).1.1 = none :=
  (area.addLoop_adds hname value valuelen).lookupPath_of_ne (none, area.children) area.bytesUsed []
    hv.wf (List.splitOn_ne_nil 46 name).symm

theorem PropArea.store_add :
    (area.add name name.length value valuelen).1.store =
      lookupPath (area.addLoop name value valuelen).1 := by
  rw [area.add_eq hv, PropArea.store, PropArea.children]
  dsimp only
  rw [← area.addLoop_prop hv hname value valuelen]

theorem PropArea.store_add_cases {path : List (List UInt8)} {info : PropInfo}
    (h : (area.add name name.length value valuelen).1.store path = some info) :
    area.store path = some info ∨ (path = name.splitOn 46 ∧ info.name = name) := by
  have hadds := area.addLoop_adds hname value valuelen
  rw [area.store_add hv hname] at h
  by_cases hpath : path = name.splitOn 46
  · subst hpath
    rw [PropArea.addLoop, hadds.lookupPath_self _ _ hv.wf] at h
    rcases hadds.named _ _ _ hv.wf h with hold | hnew
    · exact Or.inl hold
    · exact Or.inr ⟨rfl, hnew.trans (List.take_length)⟩
  · rw [PropArea.addLoop, hadds.lookupPath_of_ne _ _ _ hv.wf hpath] at h
    exact Or.inl h

theorem PropArea.add_of_store {info : PropInfo} (h : area.store (name.splitOn 46) = some info) :
    area.add name name.length value valuelen = (area, true) := by
  have hsame := (area.addLoop_adds hname value valuelen).of_lookupPath _ area.bytesUsed info hv.wf h
  rw [area.add_eq hv, PropArea.addLoop, hsame]
  dsimp only
  rw [← hv.root_eq]
  rfl

theorem PropArea.add_step :
    Step PropInfo.path area.store (name.splitOn 46)
      (area.add name name.length value valuelen).1.store
      (area.add name name.length value valuelen).2 := by
  have hadds := area.addLoop_adds hname value valuelen
  cases hold : area.store (name.splitOn 46) with
  | some info =>
    rw [area.add_of_store hv hname value valuelen hold]
    exact .found hold
  | none =>
    -- the store away from the name is as it was
    have hother : ∀ path ≠ name.splitOn 46,
        (area.add name name.length value valuelen).1.store path = area.store path := by
      intro path hpath
      rw [area.store_add hv hname, PropArea.addLoop, hadds.lookupPath_of_ne _ _ _ hv.wf hpath]
      rfl
    have hself : (area.add name name.length value valuelen).1.store (name.splitOn 46) =
        (area.addLoop name value valuelen).2.1 := by
      rw [area.store_add hv hname, PropArea.addLoop, hadds.lookupPath_self _ _ hv.wf]
    have hok : (area.add name name.length value valuelen).2 =
        (area.addLoop name value valuelen).2.1.isSome := by
      rw [area.add_eq hv]
    cases hfound : (area.addLoop name value valuelen).2.1 with
    | none =>
      -- nothing fitted: the store is as it was
      have hsame : (area.add name name.length value valuelen).1.store = area.store := by
        funext path
        by_cases hpath : path = name.splitOn 46
        · rw [hpath, hself, hfound, hold]
        · exact hother path hpath
      rw [hsame, hok, hfound]
      exact .failed hold
    | some info =>
      have hname' : info.name = name := by
        have h := hself.trans hfound
        rcases area.store_add_cases hv hname value valuelen h with hin | ⟨-, hnew⟩
        · rw [hold] at hin
          cases hin
        · exact hnew
      have hnew : (area.add name name.length value valuelen).1.store =
          Function.update area.store (name.splitOn 46) (some info) := by
        funext path
        by_cases hpath : path = name.splitOn 46
        · rw [hpath, Function.update_self, hself, hfound]
        · rw [Function.update_of_ne hpath, hother path hpath]
      rw [hnew, hok, hfound]
      exact .added hold (by rw [PropInfo.path, hname'])

theorem PropArea.valid_add : (area.add name name.length value valuelen).1.Valid := by
  have hadds := area.addLoop_adds hname value valuelen
  refine ⟨?_, ?_, (area.add_step hv hname value valuelen).keyed hv.keyed, ?_, ?_⟩
  · rw [area.add_eq hv, area.addLoop_prop hv hname value valuelen]
    rfl
  · rw [area.add_eq hv]
    exact hadds.wf _ _ hv.wf
  · intro path info h
    rcases area.store_add_cases hv hname value valuelen h with hold | ⟨-, hnew⟩
    · exact hv.name_ok path info hold
    · exact hnew ▸ hname.1
  · intro path info h
    rcases area.store_add_cases hv hname value valuelen h with hold | ⟨rfl, -⟩
    · exact hv.segments_ne_nil path info hold
    · exact hname.2

theorem PropArea.add_of_find {info : PropInfo} (h : area.find name = some info) :
    area.add name name.length value valuelen = (area, true) :=
  area.add_of_store hv hname value valuelen ((area.find_of_validName hv hname).symm.trans h)

theorem PropArea.find_add_of_false (h : (area.add name name.length value valuelen).2 = false)
    {other : List UInt8} (hother : 0 ∉ other) :
    (area.add name name.length value valuelen).1.find other = area.find other := by
  have hstep := area.add_step hv hname value valuelen
  rw [h] at hstep
  rw [PropArea.find_eq (area.valid_add hv hname value valuelen) hother, area.find_eq hv hother,
    hstep.eq_of_false]

theorem PropArea.add_of_room
    (hroom : area.bytesUsed + addBytes name.length valuelen (name.splitOn 46) ≤ area.paDataSize) :
    (area.add name name.length value valuelen).2 = true := by
  rw [area.add_eq hv]
  exact findPropertyLoop_findsWithin area.paDataSize name name.length value valuelen
    (List.splitOn_ne_nil 46 name) hname.segments (none, area.children) area.bytesUsed hv.wf hroom

end Add

/-! ### Runs of `add` -/

/-- `add` of each name, with its value, in turn: the area left and what each `add` returned. -/
def PropArea.addAll (area : PropArea) :
    List (List UInt8 × List UInt8 × ℕ) → PropArea × List Bool
  | [] => (area, [])
  | (name, value, valuelen) :: calls =>
    let (area', ok) := area.add name name.length value valuelen
    let (final, oks) := area'.addAll calls
    (final, ok :: oks)

theorem PropArea.addAll_run {area : PropArea} (hv : area.Valid)
    {calls : List (List UInt8 × List UInt8 × ℕ)} (hcalls : ∀ call ∈ calls, ValidName call.1) :
    (area.addAll calls).1.Valid ∧
      Run PropInfo.path area.store (calls.map fun call ↦ call.1.splitOn 46)
        (area.addAll calls).1.store (area.addAll calls).2 := by
  induction calls generalizing area with
  | nil => exact ⟨hv, .nil _⟩
  | cons call calls ih =>
    obtain ⟨name, value, valuelen⟩ := call
    have hname : ValidName name := hcalls _ List.mem_cons_self
    obtain ⟨hvalid, hrun⟩ := ih (area.valid_add hv hname value valuelen)
      fun call hcall ↦ hcalls call (List.mem_cons_of_mem _ hcall)
    exact ⟨hvalid, .cons (area.add_step hv hname value valuelen) hrun⟩

/-! ### `foreach` -/

/-- `cmp_prop_name` as an order: `one` comes before `two`. -/
def segmentLt (one two : List UInt8) : Prop := cmpPropName one one.length two two.length < 0

instance : DecidableRel segmentLt := fun _ _ ↦ inferInstanceAs (Decidable (_ < _))

theorem segmentLt_irrefl (s : List UInt8) : ¬ segmentLt s s := by
  simp [segmentLt, cmpPropName, strncmp_self]

/-- The paths of the `prop_info`s below a level, with them, in the order `foreach_property`
visits them. -/
def PropTrieNode.entries : PropTrieNode → List (List (List UInt8) × PropInfo)
  | .nil => []
  | .node name prop left right children =>
    left.entries ++ prop.toList.map (fun info ↦ ([name], info)) ++
      children.entries.map (fun entry ↦ (name :: entry.1, entry.2)) ++ right.entries

theorem foreachProperty_node (name : List UInt8) (prop : Option PropInfo)
    (left right children : PropTrieNode) :
    (foreachProperty (.node name prop left right children)).1 =
      (foreachProperty left).1 ++ prop.toList ++ (foreachProperty children).1 ++
        (foreachProperty right).1 := by
  cases left <;> cases children <;> cases right <;> rfl

theorem foreachProperty_fst (t : PropTrieNode) :
    (foreachProperty t).1 = t.entries.map Prod.snd := by
  induction t with
  | nil => rfl
  | node name prop left right children ihl ihr ihc =>
    rw [foreachProperty_node, ihl, ihr, ihc]
    simp [PropTrieNode.entries, Function.comp_def]

/-- What `foreach_property` visits at one node of a level: its `prop_info`, then those below it. -/
def nodeEntries (key : List UInt8) (node : Option PropInfo × PropTrieNode) :
    List (List (List UInt8) × PropInfo) :=
  node.1.toList.map (fun info ↦ ([key], info)) ++
    node.2.entries.map fun entry ↦ (key :: entry.1, entry.2)

theorem head_of_mem_nodeEntries {key : List UInt8} {node : Option PropInfo × PropTrieNode}
    {entry : List (List UInt8) × PropInfo} (h : entry ∈ nodeEntries key node) :
    ∃ rest, entry.1 = key :: rest := by
  rcases List.mem_append.mp h with h | h
  · obtain ⟨info, -, rfl⟩ := List.mem_map.mp h
    exact ⟨[], rfl⟩
  · obtain ⟨entry', -, rfl⟩ := List.mem_map.mp h
    exact ⟨entry'.1, rfl⟩

theorem PropTrieNode.entries_eq_flatMap (t : PropTrieNode) :
    t.entries = t.level.toList.flatMap fun node ↦ nodeEntries node.1 node.2 := by
  induction t with
  | nil => rfl
  | node name prop left right children ihl ihr _ =>
    rw [entries, level_node, Tree.toList, List.flatMap_append, List.flatMap_cons, ← ihl, ← ihr]
    simp only [nodeEntries, List.append_assoc]

theorem PropTrieNode.ne_nil_of_mem_entries {t : PropTrieNode} {entry}
    (h : entry ∈ t.entries) : entry.1 ≠ [] := by
  rw [entries_eq_flatMap, List.mem_flatMap] at h
  obtain ⟨node, -, hentry⟩ := h
  obtain ⟨rest, hrest⟩ := head_of_mem_nodeEntries hentry
  rw [hrest]
  exact List.cons_ne_nil _ _

theorem PropTrieNode.mem_entries {t : PropTrieNode} (ht : t.Wf) (path : List (List UInt8))
    (info : PropInfo) : (path, info) ∈ t.entries ↔ path ≠ [] ∧ lookupPath (none, t) path = some info := by
  induction path generalizing t with
  | nil => exact ⟨fun h ↦ absurd rfl (ne_nil_of_mem_entries h), fun h ↦ absurd rfl h.1⟩
  | cons segment rest ih =>
    have hord : t.level.Ordered segmentCmp := by
      cases ht with
      | intro hord _ _ => exact hord
    simp only [ne_eq, List.cons_ne_nil, not_false_eq_true, true_and]
    rw [entries_eq_flatMap, List.mem_flatMap]
    constructor
    · rintro ⟨⟨key, node⟩, hmem, hentry⟩
      have hlook := (Tree.lookup_eq_some_iff hord key node).mpr hmem
      rcases List.mem_append.mp hentry with h | h
      · -- the `prop_info` of the node itself
        obtain ⟨info', hinfo, heq⟩ := List.mem_map.mp h
        obtain ⟨⟨rfl, rfl⟩, rfl⟩ := Prod.mk.inj heq |>.imp List.cons.inj id
        rw [lookupPath_cons_of_lookup_eq_some hlook]
        exact Option.mem_toList.mp hinfo
      · -- an entry below it, whose path is not empty and so does not read the node's `prop`
        obtain ⟨entry, hbelow, heq⟩ := List.mem_map.mp h
        obtain ⟨⟨rfl, rfl⟩, rfl⟩ := Prod.mk.inj heq |>.imp List.cons.inj id
        rw [lookupPath_cons_of_lookup_eq_some hlook]
        obtain ⟨hne, hfound⟩ := (ih (ht.lookup hlook)).mp hbelow
        obtain ⟨s, q, hsq⟩ := List.exists_cons_of_ne_nil hne
        rw [hsq] at hfound ⊢
        exact hfound
    · intro h
      cases hlook : t.level.lookup segmentCmp segment with
      | none =>
        rw [lookupPath_cons_of_lookup_eq_none hlook] at h
        cases h
      | some node =>
        rw [lookupPath_cons_of_lookup_eq_some hlook] at h
        refine ⟨(segment, node), (Tree.lookup_eq_some_iff hord segment node).mp hlook, ?_⟩
        obtain ⟨prop, children⟩ := node
        cases rest with
        | nil =>
          exact List.mem_append_left _ (List.mem_map.mpr ⟨info, Option.mem_toList.mpr h, rfl⟩)
        | cons s q =>
          refine List.mem_append_right _ (List.mem_map.mpr ⟨(s :: q, info), ?_, rfl⟩)
          exact (ih (ht.lookup hlook)).mpr ⟨List.cons_ne_nil _ _, h⟩

/-- The entries of a well-formed level are in the order of their paths, segment by segment with
`cmp_prop_name`, a path before its extensions. -/
theorem PropTrieNode.entries_pairwise {t : PropTrieNode} (ht : t.Wf) :
    t.entries.Pairwise fun x y ↦ List.Lex segmentLt x.1 y.1 := by
  -- on the well-formedness, which gives the order of each level and of the levels below it
  induction ht with
  | @intro t hord hnames _ ih =>
    rw [entries_eq_flatMap, List.pairwise_flatMap]
    constructor
    · -- within a node: its own `prop_info`, then those below it
      rintro ⟨key, prop, children⟩ hmem
      refine List.pairwise_append.mpr ⟨?_, ?_, ?_⟩
      · cases prop <;> simp
      · exact List.pairwise_map.mpr ((ih key prop children hmem).imp List.Lex.cons)
      · intro x hx y hy
        obtain ⟨info, -, rfl⟩ := List.mem_map.mp hx
        obtain ⟨entry, hentry, rfl⟩ := List.mem_map.mp hy
        obtain ⟨s, rest, hsr⟩ := List.exists_cons_of_ne_nil (ne_nil_of_mem_entries hentry)
        rw [hsr]
        exact List.Lex.cons List.Lex.nil
    · -- between nodes: the first segments are in the order of the level
      have hkeys : t.level.toList.Pairwise fun a b ↦ segmentCmp a.1 b.1 = .lt :=
        List.pairwise_map.mp hord
      refine hkeys.imp_of_mem ?_
      intro a b ha hb hab x hx y hy
      obtain ⟨restx, hrestx⟩ := head_of_mem_nodeEntries hx
      obtain ⟨resty, hresty⟩ := head_of_mem_nodeEntries hy
      have hna : 0 ∉ a.1 := hnames a.1 (List.mem_map_of_mem ha)
      have hnb : 0 ∉ b.1 := hnames b.1 (List.mem_map_of_mem hb)
      rw [hrestx, hresty]
      exact List.Lex.rel ((cmpPropName_neg_iff hna hnb).mpr hab)

/-! ### `foreach` of an area -/

section Foreach

variable {area : PropArea} (hv : area.Valid)
include hv

theorem PropArea.foreach_eq : area.foreach.1 = area.children.entries.map Prod.snd := by
  rw [PropArea.foreach, hv.root_eq, foreachProperty_fst]
  simp [PropTrieNode.entries, Function.comp_def]

theorem PropArea.store_of_mem_entries {entry : List (List UInt8) × PropInfo}
    (h : entry ∈ area.children.entries) : area.store entry.1 = some entry.2 :=
  ((PropTrieNode.mem_entries hv.wf entry.1 entry.2).mp h).2

theorem PropArea.mem_foreach (info : PropInfo) :
    info ∈ area.foreach.1 ↔ ∃ name, 0 ∉ name ∧ area.find name = some info := by
  rw [area.foreach_eq hv, List.mem_map]
  constructor
  · rintro ⟨entry, hentry, rfl⟩
    have hstore := area.store_of_mem_entries hv hentry
    have hpath : entry.2.name.splitOn 46 = entry.1 := hv.keyed _ _ hstore
    refine ⟨entry.2.name, hv.name_ok _ _ hstore, ?_⟩
    rw [area.find_eq hv (hv.name_ok _ _ hstore), hpath, if_pos (hv.segments_ne_nil _ _ hstore)]
    exact hstore
  · rintro ⟨name, hname, hfind⟩
    rw [area.find_eq hv hname] at hfind
    split_ifs at hfind
    exact ⟨(name.splitOn 46, info), (PropTrieNode.mem_entries hv.wf _ _).mpr
      ⟨List.splitOn_ne_nil 46 name, hfind⟩, rfl⟩

theorem PropArea.foreach_pairwise :
    area.foreach.1.Pairwise fun a b ↦ List.Lex segmentLt a.path b.path := by
  rw [area.foreach_eq hv, List.pairwise_map]
  refine (PropTrieNode.entries_pairwise hv.wf).imp_of_mem ?_
  intro x y hx hy hxy
  rw [hv.keyed _ _ (area.store_of_mem_entries hv hx), hv.keyed _ _ (area.store_of_mem_entries hv hy)]
  exact hxy

theorem PropArea.foreach_nodup : area.foreach.1.Nodup := by
  refine (area.foreach_pairwise hv).imp ?_
  rintro a b hab rfl
  exact List.lex_irrefl segmentLt_irrefl _ hab

end Foreach

/-! ### Runs from the constructor -/

/-- Every level of the trie is ordered by `cmp_prop_name`. -/
inductive PropTrieNode.Sorted : PropTrieNode → Prop
  | intro {t : PropTrieNode} (keys : t.level.keys.Pairwise segmentLt)
      (children : ∀ key prop c, (key, (prop, c)) ∈ t.level.toList → c.Sorted) : t.Sorted

theorem PropTrieNode.Wf.sorted {t : PropTrieNode} (ht : t.Wf) : t.Sorted := by
  induction ht with
  | @intro t hord hnames _ ih =>
    refine .intro ?_ ih
    exact hord.imp_of_mem fun ha hb hab ↦ (cmpPropName_neg_iff (hnames _ ha) (hnames _ hb)).mpr hab

/-- The names of a run of adds are all names `add` is given. -/
def ValidCalls (calls : List (List UInt8 × List UInt8 × ℕ)) : Prop :=
  ∀ call ∈ calls, ValidName call.1

instance : DecidablePred ValidCalls := fun _ ↦ inferInstanceAs (Decidable (∀ _ ∈ _, _))

/-- After a run of adds from the constructor, `find` of a C string finds a property exactly when
an `add` of that name returned `true`. -/
theorem PropArea.find_addAll_isSome (paDataSize : ℕ) {calls : List (List UInt8 × List UInt8 × ℕ)}
    (hcalls : ValidCalls calls) {name : List UInt8} (hname : 0 ∉ name) :
    (((PropArea.init paDataSize).addAll calls).1.find name).isSome ↔
      (name, true) ∈ (calls.map Prod.fst).zip ((PropArea.init paDataSize).addAll calls).2 := by
  obtain ⟨hvalid, hrun⟩ := PropArea.addAll_run (PropArea.valid_init paDataSize) hcalls
  -- the run's keys are the segments of the names, which determine the names
  have hzip : ∀ oks : List Bool,
      (name.splitOn 46, true) ∈ (calls.map fun call ↦ call.1.splitOn 46).zip oks ↔
        (name, true) ∈ (calls.map Prod.fst).zip oks := by
    intro oks
    have hkeys : (calls.map fun call ↦ call.1.splitOn 46) =
        (calls.map Prod.fst).map (List.splitOn 46) := by
      simp [Function.comp_def]
    rw [hkeys, List.zip_map_left, List.mem_map]
    constructor
    · rintro ⟨⟨name', ok⟩, hmem, heq⟩
      obtain ⟨hsplit, rfl⟩ := Prod.mk.inj heq
      rwa [← eq_of_splitOn_eq hsplit]
    · intro hmem
      exact ⟨(name, true), hmem, rfl⟩
  rw [PropArea.find_eq hvalid hname]
  split_ifs with hsegments
  · rw [hrun.isSome_iff, ← hzip]
    simp [PropArea.store, PropArea.init, PropArea.children, lookupPath_empty]
  · -- a name with an empty segment is never added, and never found
    simp only [Option.isSome_none, Bool.false_eq_true, false_iff]
    intro hmem
    obtain ⟨call, hcall, rfl⟩ := List.mem_map.mp (List.of_mem_zip hmem).1
    exact hsegments (hcalls call hcall).2

/-- The store of properties over any sequence of adds from the constructor. The area stays valid,
with every level of the trie ordered by `cmp_prop_name`; `find` of a C string finds a property of
that name exactly when an `add` of it returned `true`, and finds nothing else; `foreach` visits
every stored property once, in the order of the segments of its name. In every valid area an `add`
of a name that is found returns `true` and changes nothing, an `add` with room for what it may
allocate returns `true`, and an `add` that fails changes no `find`. -/
theorem addAll_find_foreach (paDataSize : ℕ) (calls : List (List UInt8 × List UInt8 × ℕ))
    (hcalls : ValidCalls calls) :
    let area := ((PropArea.init paDataSize).addAll calls).1
    let oks := ((PropArea.init paDataSize).addAll calls).2
    (area.Valid ∧ area.children.Sorted) ∧
      (∀ name, 0 ∉ name →
        ((∃ info, area.find name = some info ∧ info.name = name) ↔
          (name, true) ∈ (calls.map Prod.fst).zip oks)) ∧
      (∀ name info, 0 ∉ name → area.find name = some info → info.name = name) ∧
      (∀ info, info ∈ area.foreach.1 ↔ ∃ name, 0 ∉ name ∧ area.find name = some info) ∧
      area.foreach.1.Nodup ∧
      area.foreach.1.Pairwise (fun a b ↦ List.Lex segmentLt a.path b.path) ∧
      (∀ area : PropArea, area.Valid → ∀ name, ValidName name → ∀ value valuelen,
        (∀ info, area.find name = some info →
          area.add name name.length value valuelen = (area, true)) ∧
        (area.bytesUsed + addBytes name.length valuelen (name.splitOn 46) ≤ area.paDataSize →
          (area.add name name.length value valuelen).2 = true) ∧
        ((area.add name name.length value valuelen).2 = false →
          ∀ other, 0 ∉ other →
            (area.add name name.length value valuelen).1.find other = area.find other)) := by
  intro area oks
  have hvalid : area.Valid := (PropArea.addAll_run (PropArea.valid_init paDataSize) hcalls).1
  refine ⟨⟨hvalid, hvalid.wf.sorted⟩, ?_, ?_, area.mem_foreach hvalid, area.foreach_nodup hvalid,
    area.foreach_pairwise hvalid, ?_⟩
  · intro name hname
    rw [← PropArea.find_addAll_isSome paDataSize hcalls hname, Option.isSome_iff_exists]
    constructor
    · rintro ⟨info, hfind, -⟩
      exact ⟨info, hfind⟩
    · rintro ⟨info, hfind⟩
      exact ⟨info, hfind, area.name_of_find hvalid hname hfind⟩
  · intro name info hname hfind
    exact area.name_of_find hvalid hname hfind
  · intro area' hv name hname value valuelen
    exact ⟨fun info hfind ↦ area'.add_of_find hv hname value valuelen hfind,
      area'.add_of_room hv hname value valuelen,
      fun hfail other hother ↦ area'.find_add_of_false hv hname value valuelen hfail hother⟩

/-- `ro.a`, `ro.b` and `ro.a` again, with one-byte values. -/
def sampleCalls : List (List UInt8 × List UInt8 × ℕ) :=
  [([114, 111, 46, 97], [49], 1), ([114, 111, 46, 98], [50], 1), ([114, 111, 46, 97], [51], 1)]

theorem addAll_find_foreach_sampleCalls :
    ValidCalls sampleCalls ∧
      let area := ((PropArea.init 1024).addAll sampleCalls).1
      let oks := ((PropArea.init 1024).addAll sampleCalls).2
      (area.Valid ∧ area.children.Sorted) ∧
        (∀ name, 0 ∉ name →
          ((∃ info, area.find name = some info ∧ info.name = name) ↔
            (name, true) ∈ (sampleCalls.map Prod.fst).zip oks)) ∧
        (∀ name info, 0 ∉ name → area.find name = some info → info.name = name) ∧
        (∀ info, info ∈ area.foreach.1 ↔ ∃ name, 0 ∉ name ∧ area.find name = some info) ∧
        area.foreach.1.Nodup ∧
        area.foreach.1.Pairwise (fun a b ↦ List.Lex segmentLt a.path b.path) ∧
        (∀ area : PropArea, area.Valid → ∀ name, ValidName name → ∀ value valuelen,
          (∀ info, area.find name = some info →
            area.add name name.length value valuelen = (area, true)) ∧
          (area.bytesUsed + addBytes name.length valuelen (name.splitOn 46) ≤ area.paDataSize →
            (area.add name name.length value valuelen).2 = true) ∧
          ((area.add name name.length value valuelen).2 = false →
            ∀ other, 0 ∉ other →
              (area.add name name.length value valuelen).1.find other = area.find other)) :=
  ⟨by decide, addAll_find_foreach 1024 sampleCalls (by decide)⟩

end Bionic.SystemProperties
