import Bionic.Lib.Interleaving

/-!
# Exit handlers

`__cxa_atexit(fn, arg, dso)` appends an entry to the atexit array, which grows by `mmap` and
`mremap`. `__cxa_finalize(dso)` walks the array from its end, takes out each entry of `dso` (of
every module when `dso` is null) and calls it. A callback may register more handlers or call
`__cxa_finalize` itself; when it appended, the walk starts again from the new end. The outermost
`__cxa_finalize` of a module recompacts the array.

A single thread runs a program of such calls. The model is a machine with a stack of frames: the
calls a callback (or the program) still has to make, the loop of a `__cxa_finalize`, and the
point where the loop resumes after a callback. What a callback does is a parameter
(`behaviour`), and so is whether each `mmap` or `mremap` succeeds (`mapOk`). Entries carry a
ghost registration number, and a ghost log records each registration, each callback with the
pending entries at that moment, and each return of `__cxa_finalize` with the pending entries then.

`AtexitState.Inv` holds in every state the machine reaches (`AtexitState.inv_run`), and gives
`atexit_run_safe`: every pending entry is called at most once, with its own argument; a
callback is called when its entry is the most recently registered pending entry of the module;
`__cxa_finalize` returns with no pending entry of its module; and the pending entries are the
registered ones not yet called, in the order of registration.

`mprotect` and `madvise` change no entry and are left out; a failing `mprotect` aborts.
-/

set_option autoImplicit false
set_option relaxedAutoImplicit false

namespace Bionic.Exit

open Bionic.Lib.Interleaving

/-- `PAGE_SIZE`. -/
def pageSize : ℕ := 4096

/-- `sizeof(AtexitEntry)`: three pointers. -/
def atexitEntrySize : ℕ := 24

/-- `page_end`: rounded up to a page. -/
def pageEnd (x : ℕ) : ℕ := (x + pageSize - 1) / pageSize * pageSize

/-- `page_end_of_index`. -/
def pageEndOfIndex (idx : ℕ) : ℕ := pageEnd (idx * atexitEntrySize)

/-- `AtexitEntry`; pointers are addresses, 0 for `nullptr`. `id` is a ghost field: the entry's
registration number, `total_appends_` before the append. -/
structure AtexitEntry where
  fn : ℕ
  arg : ℕ
  dso : ℕ
  id : ℕ
  deriving DecidableEq, Repr

/-- The entry `extract_entry` leaves behind: `{}`. -/
def AtexitEntry.null : AtexitEntry := ⟨0, 0, 0, 0⟩

/-- An entry that `__cxa_finalize(dso)` takes: any entry when `dso` is null, else one of `dso`. -/
def AtexitEntry.Matches (dso : ℕ) (e : AtexitEntry) : Prop := dso = 0 ∨ e.dso = dso

instance (dso : ℕ) (e : AtexitEntry) : Decidable (e.Matches dso) :=
  inferInstanceAs (Decidable (dso = 0 ∨ e.dso = dso))

/-- A call a callback, or the program, makes. -/
inductive AtexitOp where
  | cxaAtexit (fn arg dso : ℕ)
  | cxaFinalize (dso : ℕ)
  deriving DecidableEq, Repr

/-- A frame of the machine's stack. -/
inductive AtexitFrame where
  /-- The calls a callback, or the program, still has to make. -/
  | ops (rest : List AtexitOp)
  /-- The loop of `__cxa_finalize(dso)` with its `total_appends`, about to look at index `i - 1`. -/
  | loop (dso totalAppends i : ℕ)
  /-- `__cxa_finalize(dso)` back from the callback of the entry at index `i`. -/
  | resume (dso totalAppends i : ℕ)
  deriving DecidableEq, Repr

/-- What the ghost log records. -/
inductive AtexitEvent where
  /-- `__cxa_atexit(fn, arg, dso)` returned `result`. -/
  | atexitReturned (fn arg dso : ℕ) (result : ℤ)
  /-- The entry became pending. -/
  | registered (e : AtexitEntry)
  /-- `__cxa_finalize(dso)` called the callback of `e`; `pending` were the pending entries. -/
  | invoked (e : AtexitEntry) (dso : ℕ) (pending : List AtexitEntry)
  /-- `__cxa_finalize(dso)` returned; `pending` were the pending entries. -/
  | finalized (dso : ℕ) (pending : List AtexitEntry)
  deriving DecidableEq, Repr

/-- `g_array` (its entries `array_[0..size_)`, `extracted_count_`, `capacity_` and
`total_appends_`), `call_depth`, the stack, the number of `mmap`/`mremap` calls so far, and the
ghost log. -/
structure AtexitState where
  array : List AtexitEntry
  extractedCount : ℕ
  capacity : ℕ
  totalAppends : ℕ
  callDepth : ℕ
  stack : List AtexitFrame
  mapCalls : ℕ
  log : List AtexitEvent

/-- The pending entries: those not taken out. -/
def AtexitState.pending (s : AtexitState) : List AtexitEntry := s.array.filter fun e ↦ e.fn ≠ 0

section Array

variable (mapOk : ℕ → Bool)

/-- `AtexitArray::next_capacity`: about twice the bytes, `none` on overflow of `size_t`. -/
def nextCapacity (capacity : ℕ) : Option ℕ :=
  if capacity = 0 then some (pageEnd atexitEntrySize / atexitEntrySize)
  else if 2 ^ 64 ≤ pageEndOfIndex capacity * 2 then none
  else some (pageEndOfIndex capacity * 2 / atexitEntrySize)

/-- `AtexitArray::expand_capacity`; `mapOk` says whether the `mmap` or `mremap` call of that
number succeeds. The entries stay where they are, in order. -/
def expandCapacity (s : AtexitState) : AtexitState × Bool :=
  match nextCapacity s.capacity with
  | none => (s, false)
  | some newCapacity =>
    if mapOk s.mapCalls then ({ s with capacity := newCapacity, mapCalls := s.mapCalls + 1 }, true)
    else ({ s with mapCalls := s.mapCalls + 1 }, false)

/-- `AtexitArray::append_entry`. -/
def appendEntry (entry : AtexitEntry) (s : AtexitState) : AtexitState × Bool :=
  let r := if s.capacity ≤ s.array.length then expandCapacity mapOk s else (s, true)
  if r.2 then
    ({ r.1 with array := r.1.array ++ [entry], totalAppends := r.1.totalAppends + 1 }, true)
  else (r.1, false)

/-- `__cxa_atexit(fn, arg, dso)`, with its result. -/
def cxaAtexit (fn arg dso : ℕ) (s : AtexitState) : AtexitState × ℤ :=
  if fn = 0 then (s, -1)
  else
    let entry : AtexitEntry := ⟨fn, arg, dso, s.totalAppends⟩
    let r := appendEntry mapOk entry s
    if r.2 then ({ r.1 with log := r.1.log ++ [.registered entry] }, 0) else (r.1, -1)

end Array

/-- `AtexitArray::needs_recompaction`: recompacting frees a page at the end. -/
def needsRecompaction (s : AtexitState) : Bool :=
  pageEndOfIndex (s.array.length - s.extractedCount) < pageEndOfIndex s.array.length

/-- `AtexitArray::recompact`: the loop moves the entries that were not taken out to the front, in
order, and the size shrinks to their number. -/
def recompact (s : AtexitState) : AtexitState :=
  if needsRecompaction s then
    { s with array := s.array.filter fun e ↦ e.fn ≠ 0, extractedCount := 0 }
  else s

/-- One step of the machine; `none` once the program is done. -/
def atexitStep (mapOk : ℕ → Bool) (behaviour : ℕ → ℕ → List AtexitOp) (s : AtexitState) :
    Option AtexitState :=
  match s.stack with
  | [] => none
  -- a callback returns
  | .ops [] :: rest => some { s with stack := rest }
  | .ops (.cxaAtexit fn arg dso :: ops) :: rest =>
    let r := cxaAtexit mapOk fn arg dso { s with stack := .ops ops :: rest }
    some { r.1 with log := r.1.log ++ [.atexitReturned fn arg dso r.2] }
  -- `++call_depth`, and the first pass from the end
  | .ops (.cxaFinalize dso :: ops) :: rest =>
    some { s with
      callDepth := s.callDepth + 1
      stack := .loop dso s.totalAppends s.array.length :: .ops ops :: rest }
  -- the loop is done: `--call_depth`, and the outermost call of a module recompacts
  | .loop dso _ 0 :: rest =>
    let s' := { s with
      callDepth := s.callDepth - 1
      stack := rest
      log := s.log ++ [.finalized dso s.pending] }
    some (if s'.callDepth = 0 ∧ dso ≠ 0 then recompact s' else s')
  | .loop dso snap (i + 1) :: rest =>
    let e := s.array.getD i AtexitEntry.null
    if e.fn = 0 ∨ ¬ e.Matches dso then some { s with stack := .loop dso snap i :: rest }
    else
      -- `extract_entry(i)`, then the callback runs above the loop
      some { s with
        array := s.array.set i AtexitEntry.null
        extractedCount := s.extractedCount + 1
        stack := .ops (behaviour e.fn e.arg) :: .resume dso snap i :: rest
        log := s.log ++ [.invoked e dso s.pending] }
  -- `goto restart` when the callback appended
  | .resume dso snap i :: rest =>
    if s.totalAppends ≠ snap then
      some { s with stack := .loop dso s.totalAppends s.array.length :: rest }
    else some { s with stack := .loop dso snap i :: rest }

/-- The program `program` before its first call: an empty array. -/
def atexitInit (program : List AtexitOp) : AtexitState :=
  { array := [], extractedCount := 0, capacity := 0, totalAppends := 0, callDepth := 0,
    stack := [.ops program], mapCalls := 0, log := [] }

/-! ## The invariant -/

/-- The entries the log registered, in order. -/
def registeredOf (log : List AtexitEvent) : List AtexitEntry :=
  log.filterMap fun ev ↦ match ev with
    | .registered e => some e
    | _ => none

/-- The registration numbers of the entries whose callback ran. -/
def invokedIds (log : List AtexitEvent) : List ℕ :=
  log.filterMap fun ev ↦ match ev with
    | .invoked e _ _ => some e.id
    | _ => none

@[simp] theorem registeredOf_append (log log' : List AtexitEvent) :
    registeredOf (log ++ log') = registeredOf log ++ registeredOf log' := List.filterMap_append
@[simp] theorem invokedIds_append (log log' : List AtexitEvent) :
    invokedIds (log ++ log') = invokedIds log ++ invokedIds log' := List.filterMap_append
@[simp] theorem registeredOf_registered (e : AtexitEntry) :
    registeredOf [.registered e] = [e] := rfl
@[simp] theorem registeredOf_atexitReturned (fn arg dso : ℕ) (result : ℤ) :
    registeredOf [.atexitReturned fn arg dso result] = [] := rfl
@[simp] theorem registeredOf_invoked (e : AtexitEntry) (dso : ℕ) (p : List AtexitEntry) :
    registeredOf [.invoked e dso p] = [] := rfl
@[simp] theorem registeredOf_finalized (dso : ℕ) (p : List AtexitEntry) :
    registeredOf [.finalized dso p] = [] := rfl
@[simp] theorem invokedIds_registered (e : AtexitEntry) : invokedIds [.registered e] = [] := rfl
@[simp] theorem invokedIds_atexitReturned (fn arg dso : ℕ) (result : ℤ) :
    invokedIds [.atexitReturned fn arg dso result] = [] := rfl
@[simp] theorem invokedIds_invoked (e : AtexitEntry) (dso : ℕ) (p : List AtexitEntry) :
    invokedIds [.invoked e dso p] = [e.id] := rfl
@[simp] theorem invokedIds_finalized (dso : ℕ) (p : List AtexitEntry) :
    invokedIds [.finalized dso p] = [] := rfl

/-- A frame of `__cxa_finalize`. -/
def AtexitFrame.isFinalize : AtexitFrame → Bool
  | .ops _ => false
  | .loop .. => true
  | .resume .. => true

/-- A loop frame. -/
def AtexitFrame.isLoop : AtexitFrame → Bool
  | .ops _ => false
  | .loop .. => true
  | .resume .. => false

/-- What a frame of `__cxa_finalize(dso)` knows while nothing was appended since its
`total_appends`: from its index on, the array holds no pending entry of `dso`. A loop frame has
its `total_appends` current. -/
def AtexitState.FrameOk (s : AtexitState) : AtexitFrame → Prop
  | .ops _ => True
  | .loop dso snap i => snap = s.totalAppends ∧ i ≤ s.array.length ∧
      ∀ e ∈ s.array.drop i, e.Matches dso → e.fn = 0
  | .resume dso snap i => snap ≤ s.totalAppends ∧ (snap = s.totalAppends → i ≤ s.array.length ∧
      ∀ e ∈ s.array.drop i, e.Matches dso → e.fn = 0)

/-- The invariant of the machine. -/
structure AtexitState.Inv (s : AtexitState) : Prop where
  /-- The registration numbers are `0, 1, …` in the order of the log. -/
  registered_ids : (registeredOf s.log).map AtexitEntry.id = List.range s.totalAppends
  /-- The pending entries are those registered and not called, in order. -/
  pending_eq : s.pending = (registeredOf s.log).filter fun e ↦ e.id ∉ invokedIds s.log
  /-- No entry was called twice. -/
  invoked_nodup : (invokedIds s.log).Nodup
  /-- A callback called is a registered one, with its argument. -/
  invoked_registered : ∀ e dso p, .invoked e dso p ∈ s.log → e ∈ registeredOf s.log
  /-- A callback called was the most recently registered pending one of the module. -/
  invoked_last : ∀ e dso p, .invoked e dso p ∈ s.log →
    e ∈ p ∧ e.Matches dso ∧ ∀ e' ∈ p, e'.Matches dso → e'.id ≤ e.id
  /-- `__cxa_finalize` returned with no pending entry of its module. -/
  finalized_none : ∀ dso p, .finalized dso p ∈ s.log → ∀ e ∈ p, ¬ e.Matches dso
  /-- Every frame of `__cxa_finalize` knows what it should. -/
  frames_ok : ∀ f ∈ s.stack, s.FrameOk f
  /-- A loop frame is on top. -/
  loop_top : ∀ f ∈ s.stack.tail, f.isLoop = false
  /-- `call_depth` counts the frames of `__cxa_finalize`. -/
  callDepth_eq : s.callDepth = (s.stack.filter AtexitFrame.isFinalize).length

namespace AtexitState

variable {s : AtexitState}

/-! ### Frames -/

theorem frameOk_congr {t : AtexitState} (harray : t.array = s.array)
    (htotal : t.totalAppends = s.totalAppends) (f : AtexitFrame) : t.FrameOk f ↔ s.FrameOk f := by
  cases f <;> simp only [FrameOk, harray, htotal]

theorem FrameOk.set_null {f : AtexitFrame} (hf : s.FrameOk f) {t : AtexitState} {i : ℕ}
    (harray : t.array = s.array.set i AtexitEntry.null) (htotal : t.totalAppends = s.totalAppends) :
    t.FrameOk f := by
  have hdrop : ∀ j dso, (∀ e ∈ s.array.drop j, e.Matches dso → e.fn = 0) →
      ∀ e ∈ t.array.drop j, e.Matches dso → e.fn = 0 := by
    intro j dso hnone e he hm
    rw [harray, List.drop_set] at he
    split at he
    · exact hnone e he hm
    · rcases List.mem_or_eq_of_mem_set he with he | rfl
      · exact hnone e he hm
      · rfl
  cases f with
  | ops _ => trivial
  | loop dso snap j =>
    obtain ⟨hsnap, hj, hnone⟩ := hf
    exact ⟨hsnap.trans htotal.symm, by simpa [harray] using hj, hdrop j dso hnone⟩
  | resume dso snap j =>
    obtain ⟨hsnap, hok⟩ := hf
    refine ⟨htotal ▸ hsnap, fun heq ↦ ?_⟩
    obtain ⟨hj, hnone⟩ := hok (heq.trans htotal)
    exact ⟨by simpa [harray] using hj, hdrop j dso hnone⟩

theorem frameOk_loop_end (dso : ℕ) : s.FrameOk (.loop dso s.totalAppends s.array.length) :=
  ⟨rfl, Nat.le_refl _, by simp⟩

theorem Inv.frameOk_top (h : s.Inv) {f : AtexitFrame} {rest : List AtexitFrame}
    (hstack : s.stack = f :: rest) : s.FrameOk f :=
  h.frames_ok f (by rw [hstack]; exact List.mem_cons_self)

theorem Inv.frameOk_tail (h : s.Inv) {f : AtexitFrame} {rest : List AtexitFrame}
    (hstack : s.stack = f :: rest) : ∀ g ∈ rest, s.FrameOk g :=
  fun g hg ↦ h.frames_ok g (by rw [hstack]; exact List.mem_cons_of_mem f hg)

theorem Inv.loop_tail (h : s.Inv) {f : AtexitFrame} {rest : List AtexitFrame}
    (hstack : s.stack = f :: rest) : ∀ g ∈ rest, g.isLoop = false := by
  have := h.loop_top
  rw [hstack] at this
  exact this

theorem Inv.callDepth_top (h : s.Inv) {f g : AtexitFrame} {rest : List AtexitFrame}
    (hstack : s.stack = f :: rest) (hg : g.isFinalize = f.isFinalize) :
    s.callDepth = ((g :: rest).filter AtexitFrame.isFinalize).length := by
  rw [h.callDepth_eq, hstack, List.filter_cons, List.filter_cons, hg]
  split <;> rfl

/-! ### Steps that move only the stack -/

/-- A step that moves only the stack and `call_depth` keeps the invariant when the new frames know
what they should. -/
theorem Inv.withStack (h : s.Inv) (stack : List AtexitFrame) (depth : ℕ)
    (hframes : ∀ f ∈ stack, s.FrameOk f) (htop : ∀ f ∈ stack.tail, f.isLoop = false)
    (hdepth : depth = (stack.filter AtexitFrame.isFinalize).length) :
    ({ s with stack := stack, callDepth := depth } : AtexitState).Inv where
  registered_ids := h.registered_ids
  pending_eq := h.pending_eq
  invoked_nodup := h.invoked_nodup
  invoked_registered := h.invoked_registered
  invoked_last := h.invoked_last
  finalized_none := h.finalized_none
  frames_ok f hf := (frameOk_congr rfl rfl f).mpr (hframes f hf)
  loop_top := htop
  callDepth_eq := hdepth

theorem Inv.replaceTop (h : s.Inv) {f g : AtexitFrame} {rest : List AtexitFrame}
    (hstack : s.stack = f :: rest) (hg : s.FrameOk g) (hkind : g.isFinalize = f.isFinalize) :
    ({ s with stack := g :: rest } : AtexitState).Inv := by
  refine h.withStack _ s.callDepth ?_ (h.loop_tail hstack) (h.callDepth_top hstack hkind)
  intro f' hf'
  rcases List.mem_cons.mp hf' with rfl | hf'
  · exact hg
  · exact h.frameOk_tail hstack f' hf'

theorem Inv.pop (h : s.Inv) {rest : List AtexitFrame} (hstack : s.stack = .ops [] :: rest) :
    ({ s with stack := rest } : AtexitState).Inv := by
  have hdepth : s.callDepth = (rest.filter AtexitFrame.isFinalize).length := by
    rw [h.callDepth_eq, hstack, List.filter_cons]
    rfl
  refine h.withStack rest s.callDepth (h.frameOk_tail hstack) ?_ hdepth
  intro g hg
  exact h.loop_tail hstack g (List.mem_of_mem_tail hg)

theorem Inv.finalizeStart (h : s.Inv) {dso : ℕ} {ops : List AtexitOp} {rest : List AtexitFrame}
    (hstack : s.stack = .ops (.cxaFinalize dso :: ops) :: rest) :
    ({ s with
        callDepth := s.callDepth + 1
        stack := .loop dso s.totalAppends s.array.length :: .ops ops :: rest } :
      AtexitState).Inv := by
  refine h.withStack _ _ ?_ ?_ ?_
  · intro f hf
    rcases List.mem_cons.mp hf with rfl | hf
    · exact frameOk_loop_end dso
    · rcases List.mem_cons.mp hf with rfl | hf
      · trivial
      · exact h.frameOk_tail hstack f hf
  · intro g hg
    rcases List.mem_cons.mp hg with rfl | hg
    · rfl
    · exact h.loop_tail hstack g hg
  · rw [h.callDepth_top hstack (g := .ops ops) rfl]
    simp [List.filter_cons, AtexitFrame.isFinalize]

theorem Inv.skip (h : s.Inv) {dso snap i : ℕ} {rest : List AtexitFrame}
    (hstack : s.stack = .loop dso snap (i + 1) :: rest)
    (hskip : (s.array.getD i AtexitEntry.null).fn = 0 ∨
      ¬ (s.array.getD i AtexitEntry.null).Matches dso) :
    ({ s with stack := .loop dso snap i :: rest } : AtexitState).Inv := by
  obtain ⟨hsnap, hi, hnone⟩ := h.frameOk_top hstack
  refine h.replaceTop hstack ⟨hsnap, by omega, fun e he hm ↦ ?_⟩ rfl
  rw [List.drop_eq_getElem_cons (by omega), List.mem_cons] at he
  rcases he with rfl | he
  · rw [List.getD_eq_getElem?_getD, List.getElem?_eq_getElem (by omega)] at hskip
    simpa [hm] using hskip
  · exact hnone e he hm

theorem Inv.restart (h : s.Inv) {dso snap i : ℕ} {rest : List AtexitFrame}
    (hstack : s.stack = .resume dso snap i :: rest) :
    ({ s with stack := .loop dso s.totalAppends s.array.length :: rest } : AtexitState).Inv :=
  h.replaceTop hstack (frameOk_loop_end dso) rfl

theorem Inv.resume (h : s.Inv) {dso snap i : ℕ} {rest : List AtexitFrame}
    (hstack : s.stack = .resume dso snap i :: rest) (hsnap : s.totalAppends = snap) :
    ({ s with stack := .loop dso snap i :: rest } : AtexitState).Inv := by
  obtain ⟨-, hok⟩ := h.frameOk_top hstack
  exact h.replaceTop hstack ⟨hsnap.symm, hok hsnap.symm⟩ rfl

/-! ### The pending entries -/

theorem mem_invokedIds {x : ℕ} {log : List AtexitEvent} :
    x ∈ invokedIds log ↔ ∃ e dso p, .invoked e dso p ∈ log ∧ e.id = x := by
  unfold invokedIds
  rw [List.mem_filterMap]
  constructor
  · rintro ⟨ev, hev, hx⟩
    cases ev <;> simp at hx
    exact ⟨_, _, _, hev, hx⟩
  · rintro ⟨e, dso, p, hev, rfl⟩
    exact ⟨_, hev, rfl⟩

theorem Inv.invokedId_lt (h : s.Inv) {x : ℕ} (hx : x ∈ invokedIds s.log) : x < s.totalAppends := by
  obtain ⟨e, dso, p, hev, rfl⟩ := mem_invokedIds.mp hx
  have hid : e.id ∈ (registeredOf s.log).map AtexitEntry.id :=
    List.mem_map_of_mem (h.invoked_registered e dso p hev)
  rw [h.registered_ids, List.mem_range] at hid
  exact hid

theorem Inv.mem_pending (h : s.Inv) {e : AtexitEntry} (he : e ∈ s.pending) :
    e ∈ registeredOf s.log ∧ e.id ∉ invokedIds s.log := by
  rw [h.pending_eq, List.mem_filter] at he
  simpa using he

theorem Inv.pending_sorted (h : s.Inv) : s.pending.Pairwise fun a b ↦ a.id < b.id := by
  have hsub : List.Sublist (s.pending.map AtexitEntry.id) (List.range s.totalAppends) := by
    rw [← h.registered_ids, h.pending_eq]
    exact (List.filter_sublist).map _
  exact List.pairwise_map.mp (List.pairwise_lt_range.sublist hsub)

theorem filter_split {l : List AtexitEntry} {i : ℕ} (hi : i < l.length) (p : AtexitEntry → Bool) :
    l.filter p = (l.take i).filter p ++ (l[i] :: l.drop (i + 1)).filter p := by
  rw [← List.drop_eq_getElem_cons hi, ← List.filter_append, List.take_append_drop]

theorem pending_set_null (t : AtexitState) {i : ℕ} (hi : i < t.array.length) :
    (t.array.set i AtexitEntry.null).filter (fun e ↦ e.fn ≠ 0) =
      (t.array.take i).filter (fun e ↦ e.fn ≠ 0) ++
        (t.array.drop (i + 1)).filter (fun e ↦ e.fn ≠ 0) := by
  rw [List.set_eq_take_append_cons_drop, if_pos hi, List.filter_append, List.filter_cons]
  simp [AtexitEntry.null]

/-- The entry `__cxa_finalize` takes splits the pending entries: the older ones before it, the
newer ones after. -/
theorem pending_split (t : AtexitState) {i : ℕ} (hi : i < t.array.length)
    (hfn : t.array[i].fn ≠ 0) :
    t.pending = (t.array.take i).filter (fun e ↦ e.fn ≠ 0) ++
      t.array[i] :: (t.array.drop (i + 1)).filter (fun e ↦ e.fn ≠ 0) := by
  unfold AtexitState.pending
  rw [filter_split hi, List.filter_cons_of_pos (by simpa using hfn)]

/-! ### Steps that move the array or the log -/

theorem Inv.remap (h : s.Inv) (c m : ℕ) :
    ({ s with capacity := c, mapCalls := m } : AtexitState).Inv where
  registered_ids := h.registered_ids
  pending_eq := h.pending_eq
  invoked_nodup := h.invoked_nodup
  invoked_registered := h.invoked_registered
  invoked_last := h.invoked_last
  finalized_none := h.finalized_none
  frames_ok f hf := (frameOk_congr rfl rfl f).mpr (h.frames_ok f hf)
  loop_top := h.loop_top
  callDepth_eq := h.callDepth_eq

theorem Inv.returned (h : s.Inv) (fn arg dso : ℕ) (r : ℤ) :
    ({ s with log := s.log ++ [.atexitReturned fn arg dso r] } : AtexitState).Inv where
  registered_ids := by simpa using h.registered_ids
  pending_eq := by simpa [AtexitState.pending] using h.pending_eq
  invoked_nodup := by simpa using h.invoked_nodup
  invoked_registered e d p hev := by
    simpa using h.invoked_registered e d p (by simpa using hev)
  invoked_last e d p hev := h.invoked_last e d p (by simpa using hev)
  finalized_none d p hev := h.finalized_none d p (by simpa using hev)
  frames_ok f hf := (frameOk_congr rfl rfl f).mpr (h.frames_ok f hf)
  loop_top := h.loop_top
  callDepth_eq := h.callDepth_eq

theorem Inv.register (h : s.Inv) {fn arg dso : ℕ} (hfn : fn ≠ 0)
    (hstack : ∀ f ∈ s.stack, f.isLoop = false) :
    ({ s with
        array := s.array ++ [⟨fn, arg, dso, s.totalAppends⟩]
        totalAppends := s.totalAppends + 1
        log := s.log ++ [.registered ⟨fn, arg, dso, s.totalAppends⟩] } : AtexitState).Inv where
  registered_ids := by simp [h.registered_ids, List.range_succ]
  pending_eq := by
    have hnew : s.totalAppends ∉ invokedIds s.log := fun hx ↦ lt_irrefl _ (h.invokedId_lt hx)
    simp only [AtexitState.pending, List.filter_append, registeredOf_append, invokedIds_append,
      registeredOf_registered, invokedIds_registered, List.append_nil]
    rw [← AtexitState.pending, h.pending_eq]
    simp [hfn, hnew]
  invoked_nodup := by simpa using h.invoked_nodup
  invoked_registered e d p hev := by
    simpa using Or.inl (h.invoked_registered e d p (by simpa using hev))
  invoked_last e d p hev := h.invoked_last e d p (by simpa using hev)
  finalized_none d p hev := h.finalized_none d p (by simpa using hev)
  frames_ok f hf := by
    have hok := h.frames_ok f hf
    cases f with
    | ops _ => trivial
    | loop dso' snap j => simpa [AtexitFrame.isLoop] using hstack _ hf
    | resume dso' snap j =>
      obtain ⟨hsnap, -⟩ := hok
      exact ⟨Nat.le_succ_of_le hsnap, fun heq ↦ absurd heq (by simp only; omega)⟩
  loop_top := h.loop_top
  callDepth_eq := h.callDepth_eq

section Extract

variable {dso snap i : ℕ} {rest : List AtexitFrame}

theorem Inv.split_sorted (h : s.Inv) (hi : i < s.array.length) (hfn : s.array[i].fn ≠ 0) :
    s.pending = (s.array.take i).filter (fun e ↦ e.fn ≠ 0) ++
      s.array[i] :: (s.array.drop (i + 1)).filter (fun e ↦ e.fn ≠ 0) ∧
    (∀ x ∈ (s.array.take i).filter (fun e ↦ e.fn ≠ 0), x.id < s.array[i].id) ∧
    (∀ x ∈ (s.array.drop (i + 1)).filter (fun e ↦ e.fn ≠ 0), s.array[i].id < x.id) := by
  have hsplit := pending_split s hi hfn
  have hsorted := h.pending_sorted
  rw [hsplit, List.pairwise_append, List.pairwise_cons] at hsorted
  obtain ⟨-, ⟨hafter, -⟩, hbefore⟩ := hsorted
  exact ⟨hsplit, fun x hx ↦ hbefore x hx _ List.mem_cons_self, hafter⟩

theorem Inv.pending_extract (h : s.Inv) (hi : i < s.array.length) (hfn : s.array[i].fn ≠ 0) :
    (s.array.set i AtexitEntry.null).filter (fun e ↦ e.fn ≠ 0) =
      s.pending.filter fun x ↦ x.id ≠ s.array[i].id := by
  obtain ⟨hsplit, holder, hnewer⟩ := h.split_sorted hi hfn
  have hleft : ((s.array.take i).filter (fun e ↦ e.fn ≠ 0)).filter (fun x ↦ x.id ≠ s.array[i].id) =
      (s.array.take i).filter (fun e ↦ e.fn ≠ 0) :=
    List.filter_eq_self.mpr fun x hx ↦ by simpa using Nat.ne_of_lt (holder x hx)
  have hright : ((s.array.drop (i + 1)).filter (fun e ↦ e.fn ≠ 0)).filter
      (fun x ↦ x.id ≠ s.array[i].id) = (s.array.drop (i + 1)).filter (fun e ↦ e.fn ≠ 0) :=
    List.filter_eq_self.mpr fun x hx ↦ by simpa using Nat.ne_of_gt (hnewer x hx)
  rw [pending_set_null s hi, hsplit, List.filter_append, List.filter_cons_of_neg (by simp), hleft,
    hright]

/-- The entry the loop reaches is the newest pending entry of its module: the loop frame knows
that none after it is one. -/
theorem Inv.newest_of_loop (h : s.Inv) (hstack : s.stack = .loop dso snap (i + 1) :: rest)
    (hi : i < s.array.length) (hfn : s.array[i].fn ≠ 0) :
    ∀ y ∈ s.pending, y.Matches dso → y.id ≤ s.array[i].id := by
  obtain ⟨-, -, hnone⟩ := h.frameOk_top hstack
  obtain ⟨hsplit, holder, -⟩ := h.split_sorted hi hfn
  intro y hy hym
  rw [hsplit, List.mem_append, List.mem_cons] at hy
  rcases hy with hy | rfl | hy
  · exact Nat.le_of_lt (holder y hy)
  · exact Nat.le_refl _
  · rw [List.mem_filter] at hy
    exact absurd (hnone y hy.1 hym) (by simpa using hy.2)

theorem Inv.frameOk_resume (h : s.Inv) (hstack : s.stack = .loop dso snap (i + 1) :: rest)
    (hi : i < s.array.length) {t : AtexitState} (harray : t.array = s.array.set i AtexitEntry.null)
    (htotal : t.totalAppends = s.totalAppends) : t.FrameOk (.resume dso snap i) := by
  obtain ⟨hsnap, -, hnone⟩ := h.frameOk_top hstack
  refine ⟨(hsnap.trans htotal.symm).le, fun _ ↦ ⟨by simpa [harray] using Nat.le_of_lt hi,
    fun x hx hxm ↦ ?_⟩⟩
  rw [harray, List.drop_set, if_neg (lt_irrefl i), Nat.sub_self, List.drop_eq_getElem_cons hi,
    List.set_cons_zero, List.mem_cons] at hx
  rcases hx with rfl | hx
  · rfl
  · exact hnone x hx hxm

/-- `__cxa_finalize(dso)` takes out the entry at `i`, the last pending one of `dso`, and calls it
with its callbacks above the loop. -/
theorem Inv.invoke (h : s.Inv) (hstack : s.stack = .loop dso snap (i + 1) :: rest)
    (hi : i < s.array.length) (hfn : s.array[i].fn ≠ 0) (hm : s.array[i].Matches dso)
    (callback : List AtexitOp) :
    ({ s with
        array := s.array.set i AtexitEntry.null
        extractedCount := s.extractedCount + 1
        stack := .ops callback :: .resume dso snap i :: rest
        log := s.log ++ [.invoked s.array[i] dso s.pending] } : AtexitState).Inv := by
  have hmem : s.array[i] ∈ s.pending := by rw [pending_split s hi hfn]; simp
  obtain ⟨hreg, hfresh⟩ := h.mem_pending hmem
  constructor
  · simpa using h.registered_ids
  · -- the pending entries lose exactly the entry called
    have hpend : (registeredOf s.log).filter (fun x ↦ x.id ∉ invokedIds s.log ++ [s.array[i].id]) =
        s.pending.filter fun x ↦ x.id ≠ s.array[i].id := by
      rw [h.pending_eq, List.filter_filter]
      congr 1
      funext x
      simp [Bool.and_comm]
    simp only [AtexitState.pending, registeredOf_append, registeredOf_invoked, List.append_nil,
      invokedIds_append, invokedIds_invoked]
    rw [hpend, h.pending_extract hi hfn]
  · simpa [List.nodup_append, h.invoked_nodup] using
      fun x (hx : x ∈ invokedIds s.log) (hxe : x = s.array[i].id) ↦ hfresh (hxe ▸ hx)
  · intro x d p hev
    simp only [List.mem_append, List.mem_singleton, AtexitEvent.invoked.injEq] at hev
    rcases hev with hev | ⟨rfl, -, -⟩
    · simpa using h.invoked_registered x d p hev
    · simpa using hreg
  · intro x d p hev
    simp only [List.mem_append, List.mem_singleton, AtexitEvent.invoked.injEq] at hev
    rcases hev with hev | ⟨rfl, rfl, rfl⟩
    · exact h.invoked_last x d p hev
    · exact ⟨hmem, hm, h.newest_of_loop hstack hi hfn⟩
  · intro d p hev
    exact h.finalized_none d p (by simpa using hev)
  · intro f hf
    simp only [List.mem_cons] at hf
    rcases hf with rfl | rfl | hf
    · trivial
    · exact h.frameOk_resume hstack hi rfl rfl
    · exact (h.frameOk_tail hstack f hf).set_null rfl rfl
  · intro g hg
    simp only [List.tail_cons, List.mem_cons] at hg
    rcases hg with rfl | hg
    · rfl
    · exact h.loop_tail hstack g hg
  · rw [h.callDepth_eq, hstack]
    simp [List.filter_cons, AtexitFrame.isFinalize]

end Extract

theorem Inv.finalizeEnd (h : s.Inv) {dso snap : ℕ} {rest : List AtexitFrame}
    (hstack : s.stack = .loop dso snap 0 :: rest) :
    ({ s with
        callDepth := s.callDepth - 1
        stack := rest
        log := s.log ++ [.finalized dso s.pending] } : AtexitState).Inv := by
  obtain ⟨-, -, hnone⟩ := h.frameOk_top hstack
  constructor
  · simpa using h.registered_ids
  · simpa [AtexitState.pending] using h.pending_eq
  · simpa using h.invoked_nodup
  · intro e d p hev
    simpa using h.invoked_registered e d p (by simpa using hev)
  · intro e d p hev
    exact h.invoked_last e d p (by simpa using hev)
  · intro d p hev
    simp only [List.mem_append, List.mem_singleton, AtexitEvent.finalized.injEq] at hev
    rcases hev with hev | ⟨rfl, rfl⟩
    · exact h.finalized_none d p hev
    · intro e he hm
      rw [AtexitState.pending, List.mem_filter] at he
      exact absurd (hnone e (by simpa using he.1) hm) (by simpa using he.2)
  · exact fun f hf ↦ (frameOk_congr rfl rfl f).mpr (h.frameOk_tail hstack f hf)
  · intro g hg
    exact h.loop_tail hstack g (List.mem_of_mem_tail hg)
  · rw [h.callDepth_eq, hstack]
    simp [List.filter_cons, AtexitFrame.isFinalize]

theorem Inv.recompact (h : s.Inv) (hdepth : s.callDepth = 0) : (recompact s).Inv := by
  unfold Exit.recompact
  split
  · have hops : ∀ f ∈ s.stack, f.isFinalize = false := by
      have := h.callDepth_eq
      rw [hdepth, eq_comm, List.length_eq_zero_iff, List.filter_eq_nil_iff] at this
      simpa using this
    constructor
    · exact h.registered_ids
    · simpa [AtexitState.pending] using h.pending_eq
    · exact h.invoked_nodup
    · exact h.invoked_registered
    · exact h.invoked_last
    · exact h.finalized_none
    · intro f hf
      cases f with
      | ops _ => trivial
      | loop _ _ _ => exact absurd (hops _ hf) (by simp [AtexitFrame.isFinalize])
      | resume _ _ _ => exact absurd (hops _ hf) (by simp [AtexitFrame.isFinalize])
    · exact h.loop_top
    · exact h.callDepth_eq
  · exact h

end AtexitState

section Array

variable (mapOk : ℕ → Bool)

theorem expandCapacity_fst (t : AtexitState) :
    ∃ c m, (expandCapacity mapOk t).1 = { t with capacity := c, mapCalls := m } := by
  unfold expandCapacity
  split
  · exact ⟨t.capacity, t.mapCalls, rfl⟩
  · split
    · exact ⟨_, _, rfl⟩
    · exact ⟨_, _, rfl⟩

theorem cxaAtexit_cases (fn arg dso : ℕ) (t : AtexitState) :
    (fn = 0 ∧ cxaAtexit mapOk fn arg dso t = (t, -1)) ∨
    (fn ≠ 0 ∧ t.capacity ≤ t.array.length ∧ (expandCapacity mapOk t).2 = false ∧
      cxaAtexit mapOk fn arg dso t = ((expandCapacity mapOk t).1, -1)) ∨
    (fn ≠ 0 ∧ ∃ c m, cxaAtexit mapOk fn arg dso t = ({ t with
        capacity := c
        mapCalls := m
        array := t.array ++ [⟨fn, arg, dso, t.totalAppends⟩]
        totalAppends := t.totalAppends + 1
        log := t.log ++ [.registered ⟨fn, arg, dso, t.totalAppends⟩] }, 0)) := by
  unfold cxaAtexit appendEntry
  by_cases hfn : fn = 0
  · exact Or.inl ⟨hfn, by simp [hfn]⟩
  right
  by_cases hcap : t.capacity ≤ t.array.length
  · obtain ⟨c, m, hc⟩ := expandCapacity_fst mapOk t
    cases hok : (expandCapacity mapOk t).2
    · exact Or.inl ⟨hfn, hcap, rfl, by simp [hfn, hcap, hok]⟩
    · refine Or.inr ⟨hfn, c, m, ?_⟩
      simp [hfn, hcap, hok, hc]
  · exact Or.inr ⟨hfn, t.capacity, t.mapCalls, by simp [hfn, hcap]⟩

end Array

namespace AtexitState

variable {s : AtexitState}

theorem Inv.cxaAtexit (h : s.Inv) (mapOk : ℕ → Bool) (fn arg dso : ℕ)
    (hstack : ∀ f ∈ s.stack, f.isLoop = false) : (cxaAtexit mapOk fn arg dso s).1.Inv := by
  rcases cxaAtexit_cases mapOk fn arg dso s with ⟨-, hr⟩ | ⟨-, -, -, hr⟩ | ⟨hfn, c, m, hr⟩
  · rw [hr]
    exact h
  · obtain ⟨c, m, hc⟩ := expandCapacity_fst mapOk s
    rw [hr, hc]
    exact h.remap c m
  · rw [hr]
    exact (h.remap c m).register hfn hstack

theorem inv_atexitInit (program : List AtexitOp) : (atexitInit program).Inv where
  registered_ids := rfl
  pending_eq := rfl
  invoked_nodup := List.nodup_nil
  invoked_registered _ _ _ hev := absurd hev List.not_mem_nil
  invoked_last _ _ _ hev := absurd hev List.not_mem_nil
  finalized_none _ _ hev := absurd hev List.not_mem_nil
  frames_ok _ _ := by simp_all [atexitInit, FrameOk]
  loop_top _ hf := absurd hf List.not_mem_nil
  callDepth_eq := rfl

variable (mapOk : ℕ → Bool) (behaviour : ℕ → ℕ → List AtexitOp)

theorem Inv.atexitStep (h : s.Inv) {s' : AtexitState}
    (hs : atexitStep mapOk behaviour s = some s') : s'.Inv := by
  unfold Exit.atexitStep at hs
  split at hs
  · cases hs
  · next rest hstack =>
    cases hs
    exact h.pop hstack
  · next fn arg dso ops rest hstack =>
    cases hs
    have hloops : ∀ f ∈ AtexitFrame.ops ops :: rest, f.isLoop = false := by
      intro f hf
      rcases List.mem_cons.mp hf with rfl | hf
      · rfl
      · exact h.loop_tail hstack f hf
    have hu : ({ s with stack := .ops ops :: rest } : AtexitState).Inv :=
      h.replaceTop hstack trivial rfl
    exact (hu.cxaAtexit mapOk fn arg dso hloops).returned _ _ _ _
  · next dso ops rest hstack =>
    cases hs
    exact h.finalizeStart hstack
  · next dso snap rest hstack =>
    cases hs
    have hend := h.finalizeEnd hstack
    split
    · next hdepth => exact hend.recompact hdepth.1
    · exact hend
  · next dso snap i rest hstack =>
    dsimp only at hs
    split at hs
    · next hskip =>
      cases hs
      exact h.skip hstack hskip
    · next hcall =>
      cases hs
      rw [not_or, not_not] at hcall
      -- a pending entry is inside the array
      have hi : i < s.array.length := by
        by_contra hi
        rw [List.getD_eq_getElem?_getD, List.getElem?_eq_none (by omega)] at hcall
        exact hcall.1 rfl
      have hget : s.array.getD i AtexitEntry.null = s.array[i] := by
        rw [List.getD_eq_getElem?_getD, List.getElem?_eq_getElem hi, Option.getD_some]
      rw [hget] at hcall ⊢
      exact h.invoke hstack hi hcall.1 hcall.2 _
  · next dso snap i rest hstack =>
    split at hs
    · cases hs
      exact h.restart hstack
    · next hsnap =>
      cases hs
      exact h.resume hstack (not_not.mp hsnap)

theorem inv_run (program : List AtexitOp) (schedule : List Unit) :
    (run (fun _ ↦ atexitStep mapOk behaviour) (atexitInit program) schedule).Inv :=
  Stable.run (fun _ _ _ h hs ↦ h.atexitStep mapOk behaviour hs) (inv_atexitInit program) schedule

end AtexitState

section Array

variable (mapOk : ℕ → Bool)

/-- `__cxa_atexit` fails for a null callback and when the array cannot grow; otherwise the entry
becomes the newest pending one. -/
theorem cxaAtexit_spec (fn arg dso : ℕ) (t : AtexitState) :
    (fn = 0 → cxaAtexit mapOk fn arg dso t = (t, -1)) ∧
    (fn ≠ 0 →
      ((cxaAtexit mapOk fn arg dso t).2 = 0 ∧
        (cxaAtexit mapOk fn arg dso t).1.pending = t.pending ++ [⟨fn, arg, dso, t.totalAppends⟩]) ∨
      ((cxaAtexit mapOk fn arg dso t).2 = -1 ∧ t.capacity ≤ t.array.length ∧
        (expandCapacity mapOk t).2 = false ∧
        (cxaAtexit mapOk fn arg dso t).1.pending = t.pending)) := by
  rcases cxaAtexit_cases mapOk fn arg dso t with ⟨hfn, hr⟩ | ⟨hfn, hcap, hok, hr⟩ | ⟨hfn, c, m, hr⟩
  · exact ⟨fun _ ↦ hr, fun h ↦ absurd hfn h⟩
  · obtain ⟨c, m, hc⟩ := expandCapacity_fst mapOk t
    refine ⟨fun h ↦ absurd h hfn, fun _ ↦ Or.inr ⟨by rw [hr], hcap, hok, ?_⟩⟩
    rw [hr, hc]
    rfl
  · refine ⟨fun h ↦ absurd h hfn, fun _ ↦ Or.inl ⟨by rw [hr], ?_⟩⟩
    rw [hr]
    simp [AtexitState.pending, hfn]

end Array

/-- Every single-threaded run of `__cxa_atexit` and `__cxa_finalize` calls, with re-entrant
registration and nested finalization from callbacks. -/
theorem atexit_run_safe (mapOk : ℕ → Bool) (behaviour : ℕ → ℕ → List AtexitOp)
    (program : List AtexitOp) (schedule : List Unit) :
    let s := run (fun _ ↦ atexitStep mapOk behaviour) (atexitInit program) schedule
    -- `__cxa_atexit` fails for a null callback and when growing fails, else the entry is pending
    (∀ (t : AtexitState) (arg dso : ℕ), cxaAtexit mapOk 0 arg dso t = (t, -1)) ∧
    (∀ (t : AtexitState) (fn arg dso : ℕ), fn ≠ 0 →
      ((cxaAtexit mapOk fn arg dso t).2 = 0 ∧
        (cxaAtexit mapOk fn arg dso t).1.pending = t.pending ++ [⟨fn, arg, dso, t.totalAppends⟩]) ∨
      ((cxaAtexit mapOk fn arg dso t).2 = -1 ∧ t.capacity ≤ t.array.length ∧
        (expandCapacity mapOk t).2 = false ∧
        (cxaAtexit mapOk fn arg dso t).1.pending = t.pending)) ∧
    -- each entry is called at most once, and a called entry is a registered one, with its argument
    (invokedIds s.log).Nodup ∧
    (∀ e dso p, .invoked e dso p ∈ s.log → e ∈ registeredOf s.log) ∧
    -- the entry called is the most recently registered pending entry of the module
    (∀ e dso p, .invoked e dso p ∈ s.log →
      e ∈ p ∧ e.Matches dso ∧ ∀ e' ∈ p, e'.Matches dso → e'.id ≤ e.id) ∧
    -- `__cxa_finalize(dso)` returns with no pending entry of `dso`
    (∀ dso p, .finalized dso p ∈ s.log → ∀ e ∈ p, ¬ e.Matches dso) ∧
    -- registration numbers follow the registrations, and the pending entries are the registered
    -- ones not called, in that order
    (registeredOf s.log).map AtexitEntry.id = List.range s.totalAppends ∧
    s.pending = (registeredOf s.log).filter fun e ↦ e.id ∉ invokedIds s.log := by
  intro s
  have h : s.Inv := AtexitState.inv_run mapOk behaviour program schedule
  exact ⟨fun t arg dso ↦ (cxaAtexit_spec mapOk 0 arg dso t).1 rfl,
    fun t fn arg dso ↦ (cxaAtexit_spec mapOk fn arg dso t).2, h.invoked_nodup, h.invoked_registered,
    h.invoked_last, h.finalized_none, h.registered_ids, h.pending_eq⟩

/-- Two handlers of one module, then `__cxa_finalize` of it: the newer one is called first. -/
def atexitSampleProgram : List AtexitOp := [.cxaAtexit 1 10 5, .cxaAtexit 2 20 5, .cxaFinalize 5]

example : (run (fun _ ↦ atexitStep (fun _ ↦ true) (fun _ _ ↦ []))
    (atexitInit atexitSampleProgram) (List.replicate 12 ())).log =
    [.registered ⟨1, 10, 5, 0⟩, .atexitReturned 1 10 5 0,
      .registered ⟨2, 20, 5, 1⟩, .atexitReturned 2 20 5 0,
      .invoked ⟨2, 20, 5, 1⟩ 5 [⟨1, 10, 5, 0⟩, ⟨2, 20, 5, 1⟩],
      .invoked ⟨1, 10, 5, 0⟩ 5 [⟨1, 10, 5, 0⟩],
      .finalized 5 []] := by decide

end Bionic.Exit
