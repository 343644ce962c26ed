import Bionic.Lib.CString

/-!
# The property area

A `prop_area` holds the system properties of one context in a shared memory area: a trie whose
levels are the `.`-separated segments of the names, each level a binary search tree of sibling
segments ordered by `cmp_prop_name` (length first, then bytes). Objects are carved out of the area
by a bump allocator (`allocate_obj`) that fails once `pa_data_size_` bytes are used; nothing is
ever freed.

The model keeps the trie as a tree (`PropTrieNode`): the offsets of the `left`, `right`, `children`
and `prop` fields are the edges, offset `0` is `nil`. `find_property` walks it segment by segment;
at the node that `find_prop_trie_node` returns it goes on down that node's `children`, or, at the
last segment, reads or makes its `prop`. That going on is the argument `k` of
`findPropTrieNode`, so that the node found is rebuilt with what `k` makes of it, as the C code
writes through the pointer it returns. `bytesUsed` is threaded through every allocation.

`foreachProperty` returns the `prop_info`s in the order it hands them to its callback.
-/

set_option autoImplicit false
set_option relaxedAutoImplicit false

namespace Bionic.SystemProperties

open Bionic.Lib.CString

/-- `PROP_VALUE_MAX`. -/
def propValueMax : ℕ := 92

/-- `sizeof(prop_trie_node)`: `namelen` and the four offsets. -/
def sizeofPropTrieNode : ℕ := 20

/-- `sizeof(prop_info)`: `serial` and the `PROP_VALUE_MAX` bytes of its value union. -/
def sizeofPropInfo : ℕ := 96

/-- `prop_info::kLongFlag`. -/
def kLongFlag : UInt32 := (1 : UInt32) <<< 16

/-- `prop_info::kLongLegacyErrorBufferSize`. -/
def kLongLegacyErrorBufferSize : ℕ := 56

/-- `kLongLegacyError`, without its terminating zero. -/
def kLongLegacyError : List UInt8 :=
  "Must use __system_property_read_callback() to read".toList.map Char.toUInt8

/-- `__BIONIC_ALIGN(value, 4)`. -/
def align4 (value : ℕ) : ℕ := (value + 3) / 4 * 4

/-! ### Property records -/

/-- A `prop_info`: its `serial`, the `PROP_VALUE_MAX` bytes of the union of `value` and
`long_property`, its name, and for a long property the string `long_value()` points at. -/
structure PropInfo where
  serial : UInt32
  value : List UInt8
  name : List UInt8
  longValue : Option (List UInt8)
  deriving DecidableEq, Repr

/-- The bytes of a 32-bit word, lowest first. -/
def bytesOfU32 (w : UInt32) : List UInt8 :=
  [w.toUInt8, (w >>> 8).toUInt8, (w >>> 16).toUInt8, (w >>> 24).toUInt8]

/-- `prop_info(name, namelen, value, valuelen)`, in an area that was zero: the value and its
terminating zero at the front of `value`, its length in the top byte of `serial`. -/
def PropInfo.short (name : List UInt8) (namelen : ℕ) (value : List UInt8) (valuelen : ℕ) :
    PropInfo where
  serial := UInt32.ofNat valuelen <<< 24
  value := value.take valuelen ++ 0 :: List.replicate (propValueMax - valuelen - 1) 0
  name := name.take namelen
  longValue := none

/-- `prop_info(name, namelen, long_offset)`: the legacy error message in `value`, with the offset
of the long value after it, and the message's length and `kLongFlag` in `serial`. -/
def PropInfo.long (name : List UInt8) (namelen : ℕ) (longOffset : UInt32)
    (longValue : List UInt8) : PropInfo where
  serial := UInt32.ofNat kLongLegacyError.length <<< 24 ||| kLongFlag
  value := kLongLegacyError ++
    List.replicate (kLongLegacyErrorBufferSize - kLongLegacyError.length) 0 ++
    bytesOfU32 longOffset ++ List.replicate (propValueMax - kLongLegacyErrorBufferSize - 4) 0
  name := name.take namelen
  longValue := some longValue

/-- A node of the trie: its segment (`namelen` is its length), the offsets of its `prop_info`,
of its siblings to the `left` and `right`, and of the tree of its `children`; `nil` is offset `0`. -/
inductive PropTrieNode where
  | nil
  | node (name : List UInt8) (prop : Option PropInfo) (left right children : PropTrieNode)
  deriving DecidableEq, Repr

/-! ### Allocation -/

/-- `prop_area::allocate_obj`: the bytes used once `size` bytes, rounded up to 4, are taken at
offset `bytesUsed`, or `none` when they do not fit. -/
def allocateObj (paDataSize bytesUsed size : ℕ) : Option ℕ :=
  let aligned := align4 size
  if bytesUsed + aligned > paDataSize then none else some (bytesUsed + aligned)

/-- `prop_area::new_prop_trie_node`: a node for the first `namelen` bytes of `name`, with the
bytes used after it. -/
def newPropTrieNode (paDataSize : ℕ) (name : List UInt8) (namelen bytesUsed : ℕ) :
    Option (PropTrieNode × ℕ) :=
  (allocateObj paDataSize bytesUsed (sizeofPropTrieNode + namelen + 1)).map fun bytesUsed ↦
    (.node (name.take namelen) none .nil .nil .nil, bytesUsed)

/-- `prop_area::new_prop_info`, with the bytes used after it. A long value takes a second
object, placed right after the `prop_info`; when that one does not fit the `prop_info` stays
allocated and nothing is returned. -/
def newPropInfo (paDataSize : ℕ) (name : List UInt8) (namelen : ℕ) (value : List UInt8)
    (valuelen bytesUsed : ℕ) : Option PropInfo × ℕ :=
  match allocateObj paDataSize bytesUsed (sizeofPropInfo + namelen + 1) with
  | none => (none, bytesUsed)
  | some afterInfo =>
    if valuelen ≥ propValueMax then
      match allocateObj paDataSize afterInfo (valuelen + 1) with
      | none => (none, afterInfo)
      | some afterValue =>
        (some (PropInfo.long name namelen (UInt32.ofNat (afterInfo - bytesUsed))
          (value.take valuelen)), afterValue)
    else (some (PropInfo.short name namelen value valuelen), afterInfo)

/-! ### Search -/

/-- `cmp_prop_name`: shorter names first, names of one length by `strncmp`. -/
def cmpPropName (one : List UInt8) (oneLen : ℕ) (two : List UInt8) (twoLen : ℕ) : ℤ :=
  if oneLen < twoLen then -1
  else if oneLen > twoLen then 1
  else strncmp one two oneLen

/-- What `find_property` does at the node it reached: it gets the node's `prop` and `children`
and the bytes used, and returns them as it left them, with the `prop_info` it found. -/
abbrev NodeStep : Type :=
  Option PropInfo × PropTrieNode → ℕ → (Option PropInfo × PropTrieNode) × Option PropInfo × ℕ

/-- Going on with `k` at a node. -/
def visit (k : NodeStep) : PropTrieNode → ℕ → PropTrieNode × Option PropInfo × ℕ
  | .nil, bytesUsed => (.nil, none, bytesUsed)
  | .node name prop left right children, bytesUsed =>
    let ((prop, children), found, bytesUsed) := k (prop, children) bytesUsed
    (.node name prop left right children, found, bytesUsed)

/-- `prop_area::find_prop_trie_node` on the binary tree `current` of one level, going on with `k`
at the node it returns: the node named by the first `namelen` bytes of `name`, made as a new leaf
when `allocIfNeeded` and there is room. -/
def findPropTrieNode (paDataSize : ℕ) (name : List UInt8) (namelen : ℕ) (allocIfNeeded : Bool)
    (k : NodeStep) : PropTrieNode → ℕ → PropTrieNode × Option PropInfo × ℕ
  | .nil, bytesUsed => (.nil, none, bytesUsed)
  | .node nodeName prop left right children, bytesUsed =>
    let ret := cmpPropName name namelen nodeName nodeName.length
    if ret = 0 then visit k (.node nodeName prop left right children) bytesUsed
    else if ret < 0 then
      match left with
      | .nil =>
        if !allocIfNeeded then (.node nodeName prop left right children, none, bytesUsed)
        else
          match newPropTrieNode paDataSize name namelen bytesUsed with
          | none => (.node nodeName prop left right children, none, bytesUsed)
          | some (newNode, bytesUsed) =>
            let (newNode, found, bytesUsed) := visit k newNode bytesUsed
            (.node nodeName prop newNode right children, found, bytesUsed)
      | left =>
        let (left, found, bytesUsed) :=
          findPropTrieNode paDataSize name namelen allocIfNeeded k left bytesUsed
        (.node nodeName prop left right children, found, bytesUsed)
    else
      match right with
      | .nil =>
        if !allocIfNeeded then (.node nodeName prop left right children, none, bytesUsed)
        else
          match newPropTrieNode paDataSize name namelen bytesUsed with
          | none => (.node nodeName prop left right children, none, bytesUsed)
          | some (newNode, bytesUsed) =>
            let (newNode, found, bytesUsed) := visit k newNode bytesUsed
            (.node nodeName prop left newNode children, found, bytesUsed)
      | right =>
        let (right, found, bytesUsed) :=
          findPropTrieNode paDataSize name namelen allocIfNeeded k right bytesUsed
        (.node nodeName prop left right children, found, bytesUsed)

/-- The end of `find_property` at the node of the last segment: its `prop_info`, or a new one
when `allocIfNeeded`. -/
def findPropertyAtNode (paDataSize : ℕ) (name : List UInt8) (namelen : ℕ) (value : List UInt8)
    (valuelen : ℕ) (allocIfNeeded : Bool) : NodeStep
  | (some info, children), bytesUsed => ((some info, children), some info, bytesUsed)
  | (none, children), bytesUsed =>
    if allocIfNeeded then
      let (newInfo, bytesUsed) := newPropInfo paDataSize name namelen value valuelen bytesUsed
      ((newInfo, children), newInfo, bytesUsed)
    else ((none, children), none, bytesUsed)

/-- The binary tree of `children` below the current node, made with its first node when it is
empty and `allocIfNeeded`, searched for `segment` by `find_prop_trie_node`. -/
def findChild (paDataSize : ℕ) (segment : List UInt8) (allocIfNeeded : Bool) (k : NodeStep)
    (children : PropTrieNode) (bytesUsed : ℕ) : PropTrieNode × Option PropInfo × ℕ :=
  match children with
  | .nil =>
    if allocIfNeeded then
      match newPropTrieNode paDataSize segment segment.length bytesUsed with
      | none => (.nil, none, bytesUsed)
      | some (root, bytesUsed) =>
        findPropTrieNode paDataSize segment segment.length allocIfNeeded k root bytesUsed
    else (.nil, none, bytesUsed)
  | root => findPropTrieNode paDataSize segment segment.length allocIfNeeded k root bytesUsed

/-- The loop of `prop_area::find_property` from the node `current` on, over the segments of the
name that are left: the segment up to the next `.` (`strchr`), the last one when there is none. An
empty segment stops the search. -/
def findPropertyLoop (paDataSize : ℕ) (name : List UInt8) (namelen : ℕ) (value : List UInt8)
    (valuelen : ℕ) (allocIfNeeded : Bool) :
    List (List UInt8) → Option PropInfo × PropTrieNode → ℕ →
      (Option PropInfo × PropTrieNode) × Option PropInfo × ℕ
  | [], current, bytesUsed => (current, none, bytesUsed)
  | segment :: rest, (prop, children), bytesUsed =>
    if segment.length = 0 then ((prop, children), none, bytesUsed)
    else
      let k : NodeStep := match rest with
        | [] => findPropertyAtNode paDataSize name namelen value valuelen allocIfNeeded
        | _ :: _ => fun current bytesUsed ↦
          findPropertyLoop paDataSize name namelen value valuelen allocIfNeeded rest current
            bytesUsed
      let (children, found, bytesUsed) :=
        findChild paDataSize segment allocIfNeeded k children bytesUsed
      ((prop, children), found, bytesUsed)

/-- `prop_area::find_property` from the node `trie`, for the C string `name`. -/
def findProperty (paDataSize : ℕ) (trie : PropTrieNode) (name : List UInt8) (namelen : ℕ)
    (value : List UInt8) (valuelen : ℕ) (allocIfNeeded : Bool) (bytesUsed : ℕ) :
    PropTrieNode × Option PropInfo × ℕ :=
  visit (findPropertyLoop paDataSize name namelen value valuelen allocIfNeeded (name.splitOn 46))
    trie bytesUsed

/-- `prop_area::foreach_property`: the `prop_info`s handed to the callback, in order (the left
siblings, the node, its children, the right siblings), and the result. A child's result is
compared with `< 0`, which a `bool` never is, so it is ignored. -/
def foreachProperty : PropTrieNode → List PropInfo × Bool
  | .nil => ([], false)
  | .node _ prop left right children =>
    let visitedLeft := match left with
      | .nil => []
      | left => (foreachProperty left).1
    let visitedChildren := match children with
      | .nil => []
      | children => (foreachProperty children).1
    let visitedRight := match right with
      | .nil => []
      | right => (foreachProperty right).1
    (visitedLeft ++ prop.toList ++ visitedChildren ++ visitedRight, true)

/-! ### The area -/

/-- A `prop_area`: the root node at offset `0` of `data_`, `bytes_used_` and `pa_data_size_`. -/
structure PropArea where
  root : PropTrieNode
  bytesUsed : ℕ
  paDataSize : ℕ
  deriving DecidableEq, Repr

/-- The area the `prop_area` constructor leaves in zeroed memory: the root node and the dirty
backup area are taken. -/
def PropArea.init (paDataSize : ℕ) : PropArea where
  root := .node [] none .nil .nil .nil
  bytesUsed := sizeofPropTrieNode + align4 propValueMax
  paDataSize := paDataSize

/-- `prop_area::find`. -/
def PropArea.find (area : PropArea) (name : List UInt8) : Option PropInfo :=
  (findProperty area.paDataSize area.root name name.length [] 0 false area.bytesUsed).2.1

/-- `prop_area::add`: the area after it, and whether it returned `true`. -/
def PropArea.add (area : PropArea) (name : List UInt8) (namelen : ℕ) (value : List UInt8)
    (valuelen : ℕ) : PropArea × Bool :=
  let (root, found, bytesUsed) :=
    findProperty area.paDataSize area.root name namelen value valuelen true area.bytesUsed
  ({ area with root, bytesUsed }, found.isSome)

/-- `prop_area::foreach`: the `prop_info`s handed to the callback, in order, and the result. -/
def PropArea.foreach (area : PropArea) : List PropInfo × Bool := foreachProperty area.root

end Bionic.SystemProperties
