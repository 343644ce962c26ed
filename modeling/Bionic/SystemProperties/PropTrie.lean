import Bionic.SystemProperties.PropArea
import Bionic.Lib.Bst

/-!
# The trie of the property area

Each level of the trie is a binary search tree of sibling segments (`PropTrieNode.level`), which
`cmp_prop_name` orders as `segmentCmp` does on segments without zero bytes
(`compare_cmpPropName`). `find_prop_trie_node`, going on with what `find_property` does at the node
it returns, is then the library's `Tree.modifyAt` on that level (`findPropTrieNode_level`,
`findChild_level`).

Above the levels, a node with its `prop` and `children` is a map from paths of segments to
`prop_info`s (`lookupPath`). Searching without allocating reads that map (`ReadsPath`); searching
with allocation adds at most the path searched for, changes nothing when it is there, and keeps
every level ordered (`AddsPath`). One step of `find_property` lifts either property from the
segments after the first to the whole path (`atChild_reads`, `atChild_adds`), and the loop over
the segments has it for the whole name (`findPropertyLoop_reads`, `findPropertyLoop_adds`).
-/

set_option autoImplicit false
set_option relaxedAutoImplicit false

namespace Bionic.SystemProperties

open Bionic.Lib.CString Bionic.Lib.Bst

/-! ### The order of segments -/

/-- The order of sibling segments: shorter first, then by bytes. -/
def segmentCmp : List UInt8 → List UInt8 → Ordering :=
  compareLex (compareOn List.length) (List.compareLex compare)

instance : Std.TransCmp segmentCmp := inferInstanceAs (Std.TransCmp (compareLex _ _))

instance : Std.LawfulEqCmp segmentCmp where
  compare_self := (inferInstance : Std.ReflCmp (compareLex (compareOn List.length)
    (List.compareLex compare))).compare_self
  eq_of_compare {a b} h := by
    simp only [segmentCmp, compareLex_eq_eq] at h
    exact Std.LawfulEqCmp.eq_of_compare h.2

theorem compare_cmpPropName {a b : List UInt8} (ha : 0 ∉ a) (hb : 0 ∉ b) :
    compare (cmpPropName a a.length b b.length) 0 = segmentCmp a b := by
  simp only [cmpPropName, segmentCmp, compareLex, compareOn]
  by_cases hlt : a.length < b.length
  · rw [if_pos hlt, show compare a.length b.length = .lt from Nat.compare_eq_lt.mpr hlt]
    rfl
  · by_cases hgt : a.length > b.length
    · rw [if_neg hlt, if_pos hgt, show compare a.length b.length = .gt from Nat.compare_eq_gt.mpr hgt]
      rfl
    · have hlen : a.length = b.length := by omega
      rw [if_neg hlt, if_neg hgt, show compare a.length b.length = .eq from Nat.compare_eq_eq.mpr hlen,
        Ordering.eq_then, compare_strncmp ha hb hlen]

theorem cmpPropName_eq_zero_iff {a b : List UInt8} (ha : 0 ∉ a) (hb : 0 ∉ b) :
    cmpPropName a a.length b b.length = 0 ↔ segmentCmp a b = .eq := by
  rw [← compare_cmpPropName ha hb, Int.compare_eq_eq]

theorem cmpPropName_neg_iff {a b : List UInt8} (ha : 0 ∉ a) (hb : 0 ∉ b) :
    cmpPropName a a.length b b.length < 0 ↔ segmentCmp a b = .lt := by
  rw [← compare_cmpPropName ha hb, Int.compare_eq_lt]

/-! ### Levels -/

/-- One level of the trie as a binary search tree: the siblings by segment, each with its
`prop_info` and the tree of its children. -/
def PropTrieNode.level : PropTrieNode → Tree (List UInt8) (Option PropInfo × PropTrieNode)
  | .nil => .nil
  | .node name prop left right children => .node left.level name (prop, children) right.level

@[simp] theorem PropTrieNode.level_nil : PropTrieNode.nil.level = .nil := rfl

@[simp] theorem PropTrieNode.level_node (name : List UInt8) (prop : Option PropInfo)
    (left right children : PropTrieNode) :
    (PropTrieNode.node name prop left right children).level =
      .node left.level name (prop, children) right.level := rfl

theorem PropTrieNode.level_injective : Function.Injective PropTrieNode.level := by
  intro t u h
  induction t generalizing u with
  | nil => cases u <;> simp_all
  | node name prop left right children ihl ihr =>
    cases u with
    | nil => simp at h
    | node name' prop' left' right' children' =>
      simp only [level_node, Tree.node.injEq, Prod.mk.injEq] at h
      obtain ⟨hl, rfl, ⟨rfl, rfl⟩, hr⟩ := h
      rw [ihl hl, ihr hr]

/-- The value a new node of `segment` gives its level, when `allocIfNeeded` and it fits. -/
def createNode (paDataSize : ℕ) (segment : List UInt8) (allocIfNeeded : Bool) (bytesUsed : ℕ) :
    Option ((Option PropInfo × PropTrieNode) × ℕ) :=
  if allocIfNeeded then
    (newPropTrieNode paDataSize segment segment.length bytesUsed).map fun made ↦
      ((none, .nil), made.2)
  else none

theorem newPropTrieNode_segment (paDataSize : ℕ) (segment : List UInt8) (bytesUsed : ℕ) :
    newPropTrieNode paDataSize segment segment.length bytesUsed =
      (allocateObj paDataSize bytesUsed (sizeofPropTrieNode + segment.length + 1)).map
        fun bytesUsed ↦ (.node segment none .nil .nil .nil, bytesUsed) := by
  simp [newPropTrieNode, List.take_length]

theorem visit_node (k : NodeStep) (name : List UInt8) (prop : Option PropInfo)
    (left right children : PropTrieNode) (bytesUsed : ℕ) :
    visit k (.node name prop left right children) bytesUsed =
      (.node name (k (prop, children) bytesUsed).1.1 left right (k (prop, children) bytesUsed).1.2,
        (k (prop, children) bytesUsed).2.1, (k (prop, children) bytesUsed).2.2) := rfl

section Level

variable (paDataSize : ℕ) {segment : List UInt8} (allocIfNeeded : Bool) (k : NodeStep)

/-- `find_prop_trie_node`, with what `find_property` does at the node it returns, is the
library's `modifyAt` on the level. -/
theorem findPropTrieNode_level (hsegment : 0 ∉ segment) {t : PropTrieNode} (ht : t ≠ .nil)
    (hnames : ∀ key ∈ t.level.keys, 0 ∉ key) (bytesUsed : ℕ) :
    ((findPropTrieNode paDataSize segment segment.length allocIfNeeded k t bytesUsed).1.level,
        (findPropTrieNode paDataSize segment segment.length allocIfNeeded k t bytesUsed).2.1,
        (findPropTrieNode paDataSize segment segment.length allocIfNeeded k t bytesUsed).2.2) =
      t.level.modifyAt segmentCmp segment (createNode paDataSize segment allocIfNeeded) k
        bytesUsed := by
  induction t generalizing bytesUsed with
  | nil => exact absurd rfl ht
  | node nodeName prop left right children ihl ihr =>
    have hnode : 0 ∉ nodeName := hnames nodeName (by simp)
    have hleft : ∀ key ∈ left.level.keys, 0 ∉ key := fun key h ↦ hnames key (by simp [h])
    have hright : ∀ key ∈ right.level.keys, 0 ∉ key := fun key h ↦ hnames key (by simp [h])
    unfold findPropTrieNode
    simp only [PropTrieNode.level_node, Tree.modifyAt]
    cases hcmp : segmentCmp segment nodeName with
    | eq =>
      rw [if_pos ((cmpPropName_eq_zero_iff hsegment hnode).mpr hcmp)]
      rfl
    | lt =>
      rw [if_neg (fun h ↦ by rw [cmpPropName_eq_zero_iff hsegment hnode, hcmp] at h; cases h),
        if_pos ((cmpPropName_neg_iff hsegment hnode).mpr hcmp)]
      cases left with
      | nil =>
        cases allocIfNeeded with
        | false => rfl
        | true =>
          simp only [Tree.modifyAt, PropTrieNode.level_nil, createNode, if_true,
            newPropTrieNode_segment]
          cases allocateObj paDataSize bytesUsed (sizeofPropTrieNode + segment.length + 1) <;> rfl
      | node name prop left right children =>
        dsimp only
        rw [← ihl (by simp) hleft]
        rfl
    | gt =>
      rw [if_neg (fun h ↦ by rw [cmpPropName_eq_zero_iff hsegment hnode, hcmp] at h; cases h),
        if_neg (fun h ↦ by rw [cmpPropName_neg_iff hsegment hnode, hcmp] at h; cases h)]
      cases right with
      | nil =>
        cases allocIfNeeded with
        | false => rfl
        | true =>
          simp only [Tree.modifyAt, PropTrieNode.level_nil, createNode, if_true,
            newPropTrieNode_segment]
          cases allocateObj paDataSize bytesUsed (sizeofPropTrieNode + segment.length + 1) <;> rfl
      | node name prop left right children =>
        dsimp only
        rw [← ihr (by simp) hright]
        rfl

/-- The tree of `children` below a node, searched for `segment` as `find_property` does, is
`modifyAt` on its level. -/
theorem findChild_level (hsegment : 0 ∉ segment) {children : PropTrieNode}
    (hnames : ∀ key ∈ children.level.keys, 0 ∉ key) (bytesUsed : ℕ) :
    ((findChild paDataSize segment allocIfNeeded k children bytesUsed).1.level,
        (findChild paDataSize segment allocIfNeeded k children bytesUsed).2.1,
        (findChild paDataSize segment allocIfNeeded k children bytesUsed).2.2) =
      children.level.modifyAt segmentCmp segment (createNode paDataSize segment allocIfNeeded) k
        bytesUsed := by
  cases children with
  | nil =>
    cases allocIfNeeded with
    | false => rfl
    | true =>
      -- the first node of the level is made for `segment`, and the search finds it at once
      simp only [findChild, PropTrieNode.level_nil, Tree.modifyAt, createNode, if_true,
        newPropTrieNode_segment]
      cases allocateObj paDataSize bytesUsed (sizeofPropTrieNode + segment.length + 1) with
      | none => rfl
      | some bytesUsed =>
        have hnew := findPropTrieNode_level paDataSize true k hsegment
          (t := .node segment none .nil .nil .nil) (by simp) (by simpa using hsegment) bytesUsed
        simp only [PropTrieNode.level_node, PropTrieNode.level_nil, Tree.modifyAt,
          Std.ReflCmp.compare_self] at hnew
        exact hnew
  | node name prop left right children =>
    exact findPropTrieNode_level paDataSize allocIfNeeded k hsegment (by simp) hnames bytesUsed

end Level


/-! ### Paths -/

/-- The `prop_info` a path of segments leads to, from a node with `prop` and `children`. -/
def lookupPath : Option PropInfo × PropTrieNode → List (List UInt8) → Option PropInfo
  | (prop, _), [] => prop
  | (_, children), segment :: rest =>
    match children.level.lookup segmentCmp segment with
    | none => none
    | some node => lookupPath node rest

@[simp] theorem lookupPath_nil (prop : Option PropInfo) (children : PropTrieNode) :
    lookupPath (prop, children) [] = prop := rfl

theorem lookupPath_cons_of_lookup_eq_none {prop : Option PropInfo} {children : PropTrieNode}
    {segment : List UInt8} (h : children.level.lookup segmentCmp segment = none)
    (rest : List (List UInt8)) : lookupPath (prop, children) (segment :: rest) = none := by
  simp [lookupPath, h]

theorem lookupPath_cons_of_lookup_eq_some {prop : Option PropInfo} {children : PropTrieNode}
    {segment : List UInt8} {node : Option PropInfo × PropTrieNode}
    (h : children.level.lookup segmentCmp segment = some node) (rest : List (List UInt8)) :
    lookupPath (prop, children) (segment :: rest) = lookupPath node rest := by
  simp [lookupPath, h]

theorem lookupPath_empty (path : List (List UInt8)) : lookupPath (none, .nil) path = none := by
  cases path <;> rfl

/-- After a level changes only at `segment`, a path leads where it led before unless it starts
with `segment`. -/
theorem lookupPath_of_level_eq_insert {children u : PropTrieNode} {segment : List UInt8}
    {node : Option PropInfo × PropTrieNode}
    (h : u.level = children.level.insert segmentCmp segment node) (prop : Option PropInfo)
    (s : List UInt8) (rest : List (List UInt8)) :
    lookupPath (prop, u) (s :: rest) =
      if s = segment then lookupPath node rest else lookupPath (prop, children) (s :: rest) := by
  by_cases hs : s = segment
  · subst hs
    rw [if_pos rfl, lookupPath_cons_of_lookup_eq_some (h ▸ Tree.lookup_insert_self _ _ _)]
  · rw [if_neg hs]
    simp only [lookupPath, h, Tree.lookup_insert_of_ne _ _ hs]

/-- The trie below a node is well formed: every level is ordered by `segmentCmp` and no segment
holds a zero byte. -/
inductive PropTrieNode.Wf : PropTrieNode → Prop
  | intro {t : PropTrieNode} (ordered : t.level.Ordered segmentCmp)
      (names : ∀ key ∈ t.level.keys, 0 ∉ key)
      (children : ∀ key prop c, (key, (prop, c)) ∈ t.level.toList → c.Wf) : t.Wf

theorem PropTrieNode.wf_nil : PropTrieNode.nil.Wf :=
  .intro (by simp [Tree.Ordered]) (by simp) (by simp [Tree.toList])

theorem PropTrieNode.Wf.names_ok {t : PropTrieNode} (ht : t.Wf) : ∀ key ∈ t.level.keys, 0 ∉ key := by
  cases ht with
  | intro _ hnames _ => exact hnames

theorem PropTrieNode.Wf.lookup {t : PropTrieNode} (ht : t.Wf) {segment : List UInt8}
    {node : Option PropInfo × PropTrieNode} (h : t.level.lookup segmentCmp segment = some node) :
    node.2.Wf := by
  cases ht with
  | intro hord _ hchildren =>
    exact hchildren segment node.1 node.2 ((Tree.lookup_eq_some_iff hord _ _).mp h)

/-- Inserting a node with a well-formed trie under a segment without zero bytes keeps a level
well formed. -/
theorem PropTrieNode.Wf.of_level_eq_insert {t u : PropTrieNode} (ht : t.Wf) {key : List UInt8}
    (hkey : 0 ∉ key) {node : Option PropInfo × PropTrieNode} (hnode : node.2.Wf)
    (h : u.level = t.level.insert segmentCmp key node) : u.Wf := by
  cases ht with
  | intro hord hnames hchildren =>
    refine .intro (h ▸ Tree.ordered_insert hord key node) ?_ ?_
    · intro x hx
      rw [h] at hx
      rcases Tree.mem_keys_insert hx with rfl | hx
      · exact hkey
      · exact hnames x hx
    · intro x prop c hx
      rw [h] at hx
      rcases Tree.mem_toList_insert hx with heq | hx
      · obtain ⟨-, rfl⟩ := Prod.mk.inj heq
        exact hnode
      · exact hchildren x prop c hx

/-! ### One step of `find_property` -/

section Step

variable (paDataSize : ℕ) (name : List UInt8) (namelen : ℕ) (value : List UInt8) (valuelen : ℕ)

/-- One step of the loop of `find_property`: the tree of `children` below the current node
searched for `segment`, going on with `k` at the node found. -/
def atChild (segment : List UInt8) (allocIfNeeded : Bool) (k : NodeStep) : NodeStep :=
  fun current bytesUsed ↦
    let (children, found, bytesUsed) :=
      findChild paDataSize segment allocIfNeeded k current.2 bytesUsed
    ((current.1, children), found, bytesUsed)

theorem findPropertyLoop_last {segment : List UInt8} (hsegment : segment ≠ [])
    (allocIfNeeded : Bool) :
    findPropertyLoop paDataSize name namelen value valuelen allocIfNeeded [segment] =
      atChild paDataSize segment allocIfNeeded
        (findPropertyAtNode paDataSize name namelen value valuelen allocIfNeeded) := by
  funext current bytesUsed
  obtain ⟨prop, children⟩ := current
  simp [findPropertyLoop, atChild, List.length_eq_zero_iff, hsegment]

theorem findPropertyLoop_cons_cons {segment : List UInt8} (hsegment : segment ≠ [])
    (allocIfNeeded : Bool) (next : List UInt8) (rest : List (List UInt8)) :
    findPropertyLoop paDataSize name namelen value valuelen allocIfNeeded (segment :: next :: rest) =
      atChild paDataSize segment allocIfNeeded
        (findPropertyLoop paDataSize name namelen value valuelen allocIfNeeded (next :: rest)) := by
  funext current bytesUsed
  obtain ⟨prop, children⟩ := current
  simp [findPropertyLoop, atChild, List.length_eq_zero_iff, hsegment]

/-! #### Searching -/

/-- A step that reads the path `path`: it changes nothing and returns what `lookupPath` finds, or
nothing when a segment of the path is empty. -/
def ReadsPath (path : List (List UInt8)) (step : NodeStep) : Prop :=
  ∀ current bytesUsed, current.2.Wf →
    step current bytesUsed =
      (current, if ∀ s ∈ path, s ≠ [] then lookupPath current path else none, bytesUsed)

theorem findPropertyAtNode_reads :
    ReadsPath [] (findPropertyAtNode paDataSize name namelen value valuelen false) := by
  rintro ⟨prop, children⟩ bytesUsed -
  cases prop <;> simp [findPropertyAtNode]

theorem atChild_reads {segment : List UInt8} (hsegment : 0 ∉ segment) (hne : segment ≠ [])
    {rest : List (List UInt8)} {k : NodeStep} (hk : ReadsPath rest k) :
    ReadsPath (segment :: rest) (atChild paDataSize segment false k) := by
  rintro ⟨prop, children⟩ bytesUsed hwf
  dsimp only at hwf
  have hlevel := findChild_level paDataSize false k hsegment hwf.names_ok bytesUsed
  simp only [List.forall_mem_cons, ne_eq, hne, not_false_eq_true, true_and]
  cases hlook : children.level.lookup segmentCmp segment with
  | none =>
    -- nothing to find, and nothing made
    rw [Tree.modifyAt_of_lookup_eq_none hlook] at hlevel
    simp only [createNode, Bool.false_eq_true, if_false, Prod.mk.injEq] at hlevel
    obtain ⟨hchildren, hfound, hused⟩ := hlevel
    simp [atChild, PropTrieNode.level_injective hchildren, hfound, hused,
      lookupPath_cons_of_lookup_eq_none hlook]
  | some node =>
    -- the node found is handed to `k`, which gives it back unchanged
    rw [Tree.modifyAt_of_lookup_eq_some hlook, hk node bytesUsed (hwf.lookup hlook)] at hlevel
    simp only [Tree.insert_eq_self_of_lookup_eq_some hlook, Prod.mk.injEq] at hlevel
    obtain ⟨hchildren, hfound, hused⟩ := hlevel
    simp [atChild, PropTrieNode.level_injective hchildren, hfound, hused,
      lookupPath_cons_of_lookup_eq_some hlook]

theorem findPropertyLoop_empty (allocIfNeeded : Bool) (rest : List (List UInt8))
    (current : Option PropInfo × PropTrieNode) (bytesUsed : ℕ) :
    findPropertyLoop paDataSize name namelen value valuelen allocIfNeeded ([] :: rest) current
      bytesUsed = (current, none, bytesUsed) := by
  obtain ⟨prop, children⟩ := current
  simp [findPropertyLoop]

theorem findPropertyLoop_reads {segments : List (List UInt8)} (hsegments : segments ≠ [])
    (hnames : ∀ s ∈ segments, 0 ∉ s) :
    ReadsPath segments (findPropertyLoop paDataSize name namelen value valuelen false segments) := by
  induction segments with
  | nil => exact absurd rfl hsegments
  | cons segment rest ih =>
    have hsegment : 0 ∉ segment := hnames segment List.mem_cons_self
    by_cases hempty : segment = []
    · -- an empty segment stops the search
      subst hempty
      intro current bytesUsed _
      simp [findPropertyLoop_empty]
    · cases rest with
      | nil =>
        rw [findPropertyLoop_last paDataSize name namelen value valuelen hempty]
        exact atChild_reads paDataSize hsegment hempty
          (findPropertyAtNode_reads paDataSize name namelen value valuelen)
      | cons next rest =>
        rw [findPropertyLoop_cons_cons paDataSize name namelen value valuelen hempty]
        exact atChild_reads paDataSize hsegment hempty
          (ih (List.cons_ne_nil _ _) fun s hs ↦ hnames s (List.mem_cons_of_mem _ hs))

/-! #### Adding -/

/-- A step that adds the path `path`: it keeps the trie well formed, changes no other path, finds
or makes the `prop_info` of `path` (a new one named `name`), and changes nothing when the path
already leads to one. -/
structure AddsPath (path : List (List UInt8)) (step : NodeStep) : Prop where
  wf : ∀ current bytesUsed, current.2.Wf → (step current bytesUsed).1.2.Wf
  lookupPath_of_ne : ∀ current bytesUsed q, current.2.Wf → q ≠ path →
    lookupPath (step current bytesUsed).1 q = lookupPath current q
  lookupPath_self : ∀ current bytesUsed, current.2.Wf →
    lookupPath (step current bytesUsed).1 path = (step current bytesUsed).2.1
  of_lookupPath : ∀ current bytesUsed info, current.2.Wf → lookupPath current path = some info →
    step current bytesUsed = (current, some info, bytesUsed)
  named : ∀ current bytesUsed info, current.2.Wf → (step current bytesUsed).2.1 = some info →
    lookupPath current path = some info ∨ info.name = name.take namelen

theorem newPropInfo_name {bytesUsed : ℕ} {info : PropInfo}
    (h : (newPropInfo paDataSize name namelen value valuelen bytesUsed).1 = some info) :
    info.name = name.take namelen := by
  unfold newPropInfo at h
  split at h
  · cases h
  · split_ifs at h
    · split at h
      · cases h
      · rw [← Option.some.inj h]
        rfl
    · rw [← Option.some.inj h]
      rfl

theorem findPropertyAtNode_adds :
    AddsPath name namelen [] (findPropertyAtNode paDataSize name namelen value valuelen true) := by
  constructor
  · rintro ⟨_ | _, children⟩ bytesUsed hwf <;> exact hwf
  · rintro ⟨_ | _, children⟩ bytesUsed (_ | ⟨s, rest⟩) - hq
    all_goals first | exact absurd rfl hq | rfl
  · rintro ⟨_ | _, children⟩ bytesUsed - <;> rfl
  · rintro ⟨_ | _, children⟩ bytesUsed info - hinfo
    · cases hinfo
    · cases hinfo
      rfl
  · rintro ⟨_ | info', children⟩ bytesUsed info - hinfo
    · exact Or.inr (newPropInfo_name paDataSize name namelen value valuelen hinfo)
    · exact Or.inl hinfo

theorem atChild_apply (segment : List UInt8) (allocIfNeeded : Bool) (k : NodeStep)
    (current : Option PropInfo × PropTrieNode) (bytesUsed : ℕ) :
    atChild paDataSize segment allocIfNeeded k current bytesUsed =
      ((current.1, (findChild paDataSize segment allocIfNeeded k current.2 bytesUsed).1),
        (findChild paDataSize segment allocIfNeeded k current.2 bytesUsed).2) := rfl

theorem createNode_eq_some {segment : List UInt8} {allocIfNeeded : Bool} {bytesUsed : ℕ}
    {made : (Option PropInfo × PropTrieNode) × ℕ}
    (h : createNode paDataSize segment allocIfNeeded bytesUsed = some made) :
    made.1 = (none, .nil) := by
  unfold createNode at h
  split_ifs at h
  obtain ⟨_, -, rfl⟩ := Option.map_eq_some_iff.mp h
  rfl

/-- The node a step hands on: the one its segment leads to with the bytes used so far, or a new
empty one. -/
def HandsOn (children : PropTrieNode) (segment : List UInt8) (bytesUsed : ℕ)
    (node : Option PropInfo × PropTrieNode) (bytesUsed' : ℕ) : Prop :=
  (children.level.lookup segmentCmp segment = some node ∧ bytesUsed' = bytesUsed) ∨
    (children.level.lookup segmentCmp segment = none ∧ node = (none, .nil))

theorem HandsOn.lookupPath {children : PropTrieNode} {segment : List UInt8} {bytesUsed : ℕ}
    {node : Option PropInfo × PropTrieNode} {bytesUsed' : ℕ}
    (h : HandsOn children segment bytesUsed node bytesUsed') (prop : Option PropInfo)
    (rest : List (List UInt8)) :
    lookupPath (prop, children) (segment :: rest) = lookupPath node rest := by
  rcases h with ⟨hlook, -⟩ | ⟨hlook, rfl⟩
  · exact lookupPath_cons_of_lookup_eq_some hlook rest
  · rw [lookupPath_cons_of_lookup_eq_none hlook, lookupPath_empty]

/-- What the search of a level does when it may allocate: nothing, when the segment is missing
and no node fits; otherwise it hands `k` the node of the segment, found or new, and puts back what
`k` leaves. -/
theorem findChild_cases {segment : List UInt8} (hsegment : 0 ∉ segment) (k : NodeStep)
    {children : PropTrieNode} (hwf : children.Wf) (bytesUsed : ℕ) :
    (children.level.lookup segmentCmp segment = none ∧
        findChild paDataSize segment true k children bytesUsed = (children, none, bytesUsed)) ∨
      ∃ node bytesUsed', node.2.Wf ∧ HandsOn children segment bytesUsed node bytesUsed' ∧
        (findChild paDataSize segment true k children bytesUsed).1.level =
          children.level.insert segmentCmp segment (k node bytesUsed').1 ∧
        (findChild paDataSize segment true k children bytesUsed).2 = (k node bytesUsed').2 := by
  have hlevel := findChild_level paDataSize true k hsegment hwf.names_ok bytesUsed
  cases hlook : children.level.lookup segmentCmp segment with
  | some node =>
    rw [Tree.modifyAt_of_lookup_eq_some hlook] at hlevel
    simp only [Prod.mk.injEq] at hlevel
    exact Or.inr ⟨node, bytesUsed, hwf.lookup hlook, Or.inl ⟨hlook, rfl⟩, hlevel.1,
      Prod.ext hlevel.2.1 hlevel.2.2⟩
  | none =>
    rw [Tree.modifyAt_of_lookup_eq_none hlook] at hlevel
    cases hmade : createNode paDataSize segment true bytesUsed with
    | none =>
      -- no room for the node: nothing changes
      simp only [hmade, Prod.mk.injEq] at hlevel
      exact Or.inl ⟨rfl, Prod.ext (PropTrieNode.level_injective hlevel.1)
        (Prod.ext hlevel.2.1 hlevel.2.2)⟩
    | some made =>
      obtain ⟨node, bytesUsed'⟩ := made
      obtain rfl : node = (none, .nil) := createNode_eq_some paDataSize hmade
      simp only [hmade, Prod.mk.injEq] at hlevel
      exact Or.inr ⟨(none, .nil), bytesUsed', PropTrieNode.wf_nil, Or.inr ⟨hlook, rfl⟩, hlevel.1,
        Prod.ext hlevel.2.1 hlevel.2.2⟩

/-- One step of `find_property` adds the path that starts with its segment, when what follows
adds the rest. -/
theorem atChild_adds {segment : List UInt8} (hsegment : 0 ∉ segment) {rest : List (List UInt8)}
    {k : NodeStep} (hk : AddsPath name namelen rest k) :
    AddsPath name namelen (segment :: rest) (atChild paDataSize segment true k) := by
  constructor
  · rintro ⟨prop, children⟩ bytesUsed hwf
    rw [atChild_apply]
    rcases findChild_cases paDataSize hsegment k hwf bytesUsed with
      ⟨-, hstep⟩ | ⟨node, u, hnode, -, hlevel, -⟩
    · rw [hstep]
      exact hwf
    · exact hwf.of_level_eq_insert hsegment (hk.wf node u hnode) hlevel
  · rintro ⟨prop, children⟩ bytesUsed q hwf hq
    rw [atChild_apply]
    rcases findChild_cases paDataSize hsegment k hwf bytesUsed with
      ⟨-, hstep⟩ | ⟨node, u, hnode, hon, hlevel, -⟩
    · rw [hstep]
    · cases q with
      | nil => rfl
      | cons s q =>
        rw [lookupPath_of_level_eq_insert hlevel]
        split_ifs with hs
        · -- the same first segment: the rest of the path differs, and `k` keeps it
          subst hs
          have hrest : q ≠ rest := fun h ↦ hq (h ▸ rfl)
          rw [hk.lookupPath_of_ne node u q hnode hrest, hon.lookupPath]
        · rfl
  · rintro ⟨prop, children⟩ bytesUsed hwf
    rw [atChild_apply]
    rcases findChild_cases paDataSize hsegment k hwf bytesUsed with
      ⟨hlook, hstep⟩ | ⟨node, u, hnode, -, hlevel, hfound⟩
    · rw [hstep, lookupPath_cons_of_lookup_eq_none hlook]
    · rw [lookupPath_of_level_eq_insert hlevel, if_pos rfl, hk.lookupPath_self node u hnode, hfound]
  · rintro ⟨prop, children⟩ bytesUsed info hwf hinfo
    rw [atChild_apply]
    rcases findChild_cases paDataSize hsegment k hwf bytesUsed with
      ⟨hlook, -⟩ | ⟨node, u, hnode, hon, hlevel, hfound⟩
    · rw [lookupPath_cons_of_lookup_eq_none hlook] at hinfo
      cases hinfo
    · rw [hon.lookupPath] at hinfo
      have hsame := hk.of_lookupPath node u info hnode hinfo
      rcases hon with ⟨hlook, rfl⟩ | ⟨-, rfl⟩
      · -- the path is there: `k` changes nothing, and neither does the step
        rw [hsame, Tree.insert_eq_self_of_lookup_eq_some hlook] at hlevel
        rw [hsame] at hfound
        rw [PropTrieNode.level_injective hlevel, hfound]
      · rw [lookupPath_empty] at hinfo
        cases hinfo
  · rintro ⟨prop, children⟩ bytesUsed info hwf hinfo
    rw [atChild_apply] at hinfo
    rcases findChild_cases paDataSize hsegment k hwf bytesUsed with
      ⟨-, hstep⟩ | ⟨node, u, hnode, hon, -, hfound⟩
    · rw [hstep] at hinfo
      cases hinfo
    · rw [hfound] at hinfo
      rw [hon.lookupPath]
      exact hk.named node u info hnode hinfo

theorem findPropertyLoop_adds {segments : List (List UInt8)} (hsegments : segments ≠ [])
    (hnames : ∀ s ∈ segments, 0 ∉ s ∧ s ≠ []) :
    AddsPath name namelen segments
      (findPropertyLoop paDataSize name namelen value valuelen true segments) := by
  induction segments with
  | nil => exact absurd rfl hsegments
  | cons segment rest ih =>
    obtain ⟨hsegment, hempty⟩ := hnames segment List.mem_cons_self
    cases rest with
    | nil =>
      rw [findPropertyLoop_last paDataSize name namelen value valuelen hempty]
      exact atChild_adds paDataSize name namelen hsegment
        (findPropertyAtNode_adds paDataSize name namelen value valuelen)
    | cons next rest =>
      rw [findPropertyLoop_cons_cons paDataSize name namelen value valuelen hempty]
      exact atChild_adds paDataSize name namelen hsegment
        (ih (List.cons_ne_nil _ _) fun s hs ↦ hnames s (List.mem_cons_of_mem _ hs))

/-! #### Room -/

/-- The most bytes a search with allocation takes for the path `segments`: a node for each
segment, then a `prop_info` and, for a value of `PROP_VALUE_MAX` bytes or more, its long value. -/
def addBytes : List (List UInt8) → ℕ
  | [] =>
    align4 (sizeofPropInfo + namelen + 1) + if valuelen ≥ propValueMax then align4 (valuelen + 1) else 0
  | segment :: rest => align4 (sizeofPropTrieNode + segment.length + 1) + addBytes rest

/-- A step that finds or makes a `prop_info` whenever `room` bytes are left. -/
def FindsWithin (room : ℕ) (step : NodeStep) : Prop :=
  ∀ current bytesUsed, current.2.Wf → bytesUsed + room ≤ paDataSize →
    (step current bytesUsed).2.1.isSome

theorem allocateObj_of_le {bytesUsed size : ℕ} (h : bytesUsed + align4 size ≤ paDataSize) :
    allocateObj paDataSize bytesUsed size = some (bytesUsed + align4 size) := by
  rw [allocateObj, if_neg (Nat.not_lt.mpr h)]

theorem findPropertyAtNode_findsWithin :
    FindsWithin paDataSize (addBytes namelen valuelen [])
      (findPropertyAtNode paDataSize name namelen value valuelen true) := by
  rintro ⟨_ | info, children⟩ bytesUsed - hroom
  · have hinfo : bytesUsed + align4 (sizeofPropInfo + namelen + 1) ≤ paDataSize := by
      simp only [addBytes] at hroom
      omega
    simp only [findPropertyAtNode, if_true, newPropInfo, allocateObj_of_le paDataSize hinfo]
    split_ifs with hlong
    · -- the long value is the second object, right after the `prop_info`
      have hvalue : bytesUsed + align4 (sizeofPropInfo + namelen + 1) + align4 (valuelen + 1) ≤
          paDataSize := by
        simp only [addBytes, if_pos hlong] at hroom
        omega
      simp [allocateObj_of_le paDataSize hvalue]
    · rfl
  · rfl

/-- The search of a level finds or makes the node of `segment` and goes on with `k` there, when
there is room for the node and for what `k` takes. -/
theorem findChild_isSome {segment : List UInt8} (hsegment : 0 ∉ segment) {room : ℕ}
    {k : NodeStep} (hk : FindsWithin paDataSize room k) {children : PropTrieNode}
    (hwf : children.Wf) {bytesUsed : ℕ}
    (hroom : bytesUsed + align4 (sizeofPropTrieNode + segment.length + 1) + room ≤ paDataSize) :
    (findChild paDataSize segment true k children bytesUsed).2.1.isSome := by
  have hlevel := congrArg (·.2.1) (findChild_level paDataSize true k hsegment hwf.names_ok bytesUsed)
  simp only at hlevel
  rw [hlevel]
  cases hlook : children.level.lookup segmentCmp segment with
  | some node =>
    rw [Tree.modifyAt_of_lookup_eq_some hlook]
    exact hk node bytesUsed (hwf.lookup hlook) (by omega)
  | none =>
    have hfit : bytesUsed + align4 (sizeofPropTrieNode + segment.length + 1) ≤ paDataSize := by
      omega
    have hnode := allocateObj_of_le paDataSize hfit
    rw [Tree.modifyAt_of_lookup_eq_none hlook]
    simp only [createNode, if_true, newPropTrieNode_segment, hnode, Option.map_some]
    exact hk (none, .nil) _ PropTrieNode.wf_nil hroom

/-- With allocation the loop of `find_property` finds or makes the `prop_info` of the name when
`addBytes` bytes are left. -/
theorem findPropertyLoop_findsWithin {segments : List (List UInt8)} (hsegments : segments ≠ [])
    (hnames : ∀ s ∈ segments, 0 ∉ s ∧ s ≠ []) :
    FindsWithin paDataSize (addBytes namelen valuelen segments)
      (findPropertyLoop paDataSize name namelen value valuelen true segments) := by
  induction segments with
  | nil => exact absurd rfl hsegments
  | cons segment rest ih =>
    obtain ⟨hsegment, hempty⟩ := hnames segment List.mem_cons_self
    intro current bytesUsed hwf hroom
    -- the node of the first segment comes first, then what the rest of the path takes
    rw [addBytes, ← Nat.add_assoc] at hroom
    cases rest with
    | nil =>
      rw [findPropertyLoop_last paDataSize name namelen value valuelen hempty, atChild_apply]
      exact findChild_isSome paDataSize hsegment
        (findPropertyAtNode_findsWithin paDataSize name namelen value valuelen) hwf hroom
    | cons next rest =>
      rw [findPropertyLoop_cons_cons paDataSize name namelen value valuelen hempty, atChild_apply]
      exact findChild_isSome paDataSize hsegment
        (ih (List.cons_ne_nil _ _) fun s hs ↦ hnames s (List.mem_cons_of_mem _ hs)) hwf hroom

end Step

end Bionic.SystemProperties
