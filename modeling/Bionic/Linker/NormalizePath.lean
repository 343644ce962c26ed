import Mathlib.Data.List.Infix
import Mathlib.Order.Basic

/-!
# `normalize_path`

The linker's `normalize_path` (linker_utils.cpp) rewrites an absolute path in one pass: it drops
`/.` before a `/`, and an empty component (`//`), and on `/..` before a `/` or the end it moves
the output pointer back to the previous `/`, writing a `/` again when the `..` was the last
component. A path is the list of its characters before the NUL; the output buffer is a list the
loop appends to and cuts back (`backUp`).

What the output looks like is said in components: the output is `'/' :: w₁ ++ '/' :: w₂ ++ …`
(`render`), and the loop keeps every component but the last `Proper` (not empty, `.` or `..`)
and the last together with the rest of the input free of a rule's pattern (`Inv`). A run from
the input holds `Inv` at each step (`normalizeLoop_render`), so the output has no `//`, `/./` or
`/../` and does not end in `/..`, and a path of that form is left as it is (`normalizeLoop_clean`).
-/

set_option autoImplicit false
set_option relaxedAutoImplicit false

namespace Bionic.Linker.NormalizePath

/-! ## The source -/

/-- `while (out_ptr > buf && *--out_ptr != '/') {}`: the output up to its last `/`, or nothing
when it has none. -/
def backUp (out : List Char) : List Char := ((out.reverse.dropWhile (· ≠ '/')).drop 1).reverse

/-- The loop of `normalize_path` over the input, appending to `out`. -/
def normalizeLoop : List Char → List Char → List Char
  | [], out => out
  -- `/./`: `in_ptr += 2`
  | '/' :: '.' :: tl@('/' :: _), out => normalizeLoop tl out
  -- `/../`: `in_ptr += 3` and back up
  | '/' :: '.' :: '.' :: tl@('/' :: _), out => normalizeLoop tl (backUp out)
  -- `/..` at the end: back up and write the `/` back
  | ['/', '.', '.'], out => backUp out ++ ['/']
  -- `//`: `++in_ptr`
  | '/' :: tl@('/' :: _), out => normalizeLoop tl out
  | c :: rest, out => normalizeLoop rest (out ++ [c])

/-- `normalize_path(path, &normalized_path)`: `none` (false) for a path that does not start with
`/`. -/
def normalizePath (path : List Char) : Option (List Char) :=
  match path with
  | '/' :: _ => some (normalizeLoop path [])
  | _ => none

example : normalizePath "/root/notroot/..".toList = some "/root/".toList := by
  simp [normalizePath, normalizeLoop, backUp]

/-! ## One step at a time -/

/-- A rule's pattern at the start of the text: `//`, `/./`, `/../`, or `/..` at the end. -/
def startsBad : List Char → Bool
  | '/' :: '/' :: _ => true
  | '/' :: '.' :: '/' :: _ => true
  | '/' :: '.' :: '.' :: '/' :: _ => true
  | ['/', '.', '.'] => true
  | _ => false

section Steps

variable (out : List Char)

theorem normalizeLoop_dot (tl : List Char) :
    normalizeLoop ('/' :: '.' :: '/' :: tl) out = normalizeLoop ('/' :: tl) out := by
  rw [normalizeLoop]

theorem normalizeLoop_dotDot (tl : List Char) :
    normalizeLoop ('/' :: '.' :: '.' :: '/' :: tl) out = normalizeLoop ('/' :: tl) (backUp out) := by
  rw [normalizeLoop]

theorem normalizeLoop_dotDot_end : normalizeLoop ['/', '.', '.'] out = backUp out ++ ['/'] := by
  rw [normalizeLoop]

theorem normalizeLoop_slashSlash (tl : List Char) :
    normalizeLoop ('/' :: '/' :: tl) out = normalizeLoop ('/' :: tl) out := by
  rw [normalizeLoop]

theorem normalizeLoop_of_ne {c : Char} (hc : c ≠ '/') (rest : List Char) :
    normalizeLoop (c :: rest) out = normalizeLoop rest (out ++ [c]) := by
  rw [normalizeLoop] <;> simp_all

theorem normalizeLoop_slash {rest : List Char} (h : startsBad ('/' :: rest) = false) :
    normalizeLoop ('/' :: rest) out = normalizeLoop rest (out ++ ['/']) := by
  rw [normalizeLoop] <;> intros <;> simp_all [startsBad]

theorem startsBad_cases {rest : List Char} (h : startsBad ('/' :: rest) = true) :
    (∃ tl, rest = '/' :: tl) ∨ (∃ tl, rest = '.' :: '/' :: tl) ∨
      (∃ tl, rest = '.' :: '.' :: '/' :: tl) ∨ rest = ['.', '.'] := by
  unfold startsBad at h
  split at h <;> simp_all

theorem normalizeLoop_copy {w : List Char} (hw : '/' ∉ w) (rest : List Char) :
    normalizeLoop (w ++ rest) out = normalizeLoop rest (out ++ w) := by
  induction w generalizing out with
  | nil => simp
  | cons c w ih =>
    have hc : c ≠ '/' := fun h ↦ hw (h ▸ List.mem_cons_self)
    rw [List.cons_append, normalizeLoop_of_ne out hc, ih _ (fun h ↦ hw (List.mem_cons_of_mem _ h))]
    simp

end Steps

theorem length_backUp_le (out : List Char) : (backUp out).length ≤ out.length := by
  simp only [backUp, List.length_reverse, List.length_drop]
  have := (List.dropWhile_suffix (· ≠ '/') (l := out.reverse)).length_le
  simp only [List.length_reverse] at this
  omega

/-! ## Components -/

/-- A component the output keeps before a `/`: not empty, `.` or `..`. -/
def Proper (w : List Char) : Prop := w ≠ [] ∧ w ≠ ['.'] ∧ w ≠ ['.', '.']

/-- The text of a list of components, each after its `/`. -/
def render (segs : List (List Char)) : List Char := segs.flatMap fun w ↦ '/' :: w

@[simp] theorem render_nil : render [] = [] := rfl

@[simp] theorem render_cons (w : List Char) (segs : List (List Char)) :
    render (w :: segs) = '/' :: (w ++ render segs) := rfl

@[simp] theorem render_concat (segs : List (List Char)) (w : List Char) :
    render (segs ++ [w]) = render segs ++ '/' :: w := by
  simp [render]

theorem backUp_render {segs : List (List Char)} (hsegs : ∀ w ∈ segs, '/' ∉ w) :
    backUp (render segs) = render segs.dropLast := by
  rcases segs.eq_nil_or_concat with rfl | ⟨init, w, rfl⟩
  · rfl
  · rw [List.concat_eq_append] at hsegs ⊢
    have hw : ∀ c ∈ w.reverse, decide (c ≠ '/') = true := by
      intro c hc
      have := hsegs w (by simp)
      simp only [decide_eq_true_eq]
      rintro rfl
      exact this (List.mem_reverse.1 hc)
    rw [render_concat, backUp, List.reverse_append, List.reverse_cons, List.append_assoc,
      List.dropWhile_append_of_pos hw]
    simp

theorem startsBad_junction {w r : List Char} (hw : '/' ∉ w) :
    startsBad ('/' :: (w ++ '/' :: r)) = false ↔ Proper w := by
  match w, hw with
  | [], _ => simp [startsBad, Proper]
  | [a], hw =>
    have ha : a ≠ '/' := fun h ↦ hw (by simp [h])
    by_cases hdot : a = '.'
    · subst hdot
      simp [startsBad, Proper]
    · simp [startsBad, Proper, hdot, ha]
  | [a, b], hw =>
    have ha : a ≠ '/' := fun h ↦ hw (by simp [h])
    have hb : b ≠ '/' := fun h ↦ hw (by simp [h])
    by_cases hadot : a = '.' <;> by_cases hbdot : b = '.' <;>
      simp [startsBad, Proper, ha, hb, hadot, hbdot]
  | a :: b :: c :: w', hw =>
    have ha : a ≠ '/' := fun h ↦ hw (by simp [h])
    have hb : b ≠ '/' := fun h ↦ hw (by simp [h])
    have hc : c ≠ '/' := fun h ↦ hw (by simp [h])
    by_cases hadot : a = '.' <;> by_cases hbdot : b = '.' <;>
      simp [startsBad, Proper, ha, hb, hc, hadot, hbdot]

/-! ## The loop's invariant -/

/-- The loop's output `render segs` against the input still to read: components without `/`,
every one but the last proper, nothing written before the first `/`, and no rule's pattern
where the last component meets the input. -/
structure Inv (segs : List (List Char)) (input : List Char) : Prop where
  noSlash : ∀ w ∈ segs, '/' ∉ w
  proper : ∀ w ∈ segs.dropLast, Proper w
  start : segs = [] → ∃ r, input = '/' :: r
  junction : ∀ w ∈ segs.getLast?, startsBad ('/' :: (w ++ input)) = false

/-- The components of a normalized path: every one but the last proper, the last not `..`. -/
structure Normal (segs : List (List Char)) : Prop where
  noSlash : ∀ w ∈ segs, '/' ∉ w
  proper : ∀ w ∈ segs.dropLast, Proper w
  last : ∀ w ∈ segs.getLast?, w ≠ ['.', '.']

namespace Inv

variable {segs : List (List Char)} {r : List Char}

theorem all_proper (h : Inv segs ('/' :: r)) : ∀ w ∈ segs, Proper w := by
  intro w hw
  rcases segs.eq_nil_or_concat with rfl | ⟨init, v, rfl⟩
  · simp at hw
  · rw [List.concat_eq_append] at h hw
    rcases List.mem_append.1 hw with hw | hw
    · exact h.proper w (by simpa using hw)
    · rw [List.mem_singleton] at hw
      subst hw
      exact (startsBad_junction (h.noSlash w (by simp))).1 (h.junction w (by simp))

theorem reslash (h : Inv segs ('/' :: r)) (r' : List Char) : Inv segs ('/' :: r') where
  noSlash := h.noSlash
  proper := h.proper
  start _ := ⟨r', rfl⟩
  junction w hw := (startsBad_junction (h.noSlash w (List.mem_of_getLast? hw))).2
    (h.all_proper w (List.mem_of_getLast? hw))

theorem dropLast (h : Inv segs ('/' :: r)) (r' : List Char) : Inv segs.dropLast ('/' :: r') where
  noSlash w hw := h.noSlash w (List.dropLast_subset _ hw)
  proper w hw := h.proper w (List.dropLast_subset _ hw)
  start _ := ⟨r', rfl⟩
  junction w hw :=
    have hmem : w ∈ segs := List.dropLast_subset _ (List.mem_of_getLast? hw)
    (startsBad_junction (h.noSlash w hmem)).2 (h.all_proper w hmem)

theorem copySlash (h : Inv segs ('/' :: r)) (hb : startsBad ('/' :: r) = false) :
    Inv (segs ++ [[]]) r where
  noSlash w hw := by
    rcases List.mem_append.1 hw with hw | hw
    · exact h.noSlash w hw
    · simp_all
  proper w hw := h.all_proper w (by simpa using hw)
  start hnil := absurd hnil (by simp)
  junction w hw := by
    rw [List.getLast?_concat, Option.mem_some_iff] at hw
    subst hw
    exact hb

theorem copy {init : List (List Char)} {w : List Char} {c : Char} (h : Inv (init ++ [w]) (c :: r))
    (hc : c ≠ '/') : Inv (init ++ [w ++ [c]]) r where
  noSlash v hv := by
    rcases List.mem_append.1 hv with hv | hv
    · exact h.noSlash v (List.mem_append_left _ hv)
    · rw [List.mem_singleton] at hv
      subst hv
      have hw := h.noSlash w (by simp)
      simp_all [eq_comm]
  proper v hv := h.proper v (by simpa using hv)
  start hnil := absurd hnil (by simp)
  junction v hv := by
    rw [List.getLast?_concat, Option.mem_some_iff] at hv
    subst hv
    simpa using h.junction w (by simp)

end Inv

/-- A run of the loop from a state that keeps `Inv` ends in the text of normal components, no
longer than the output so far and the input together. The induction is on the length of the
input, one case for each thing the loop does with the character in front. -/
theorem normalizeLoop_render (n : ℕ) :
    ∀ input : List Char, input.length = n → ∀ segs, Inv segs input →
      ∃ segs', segs' ≠ [] ∧ Normal segs' ∧ normalizeLoop input (render segs) = render segs' ∧
        (render segs').length ≤ (render segs).length + input.length := by
  induction n using Nat.strong_induction_on with
  | _ n ih =>
  intro input hn segs hinv
  rcases input with _ | ⟨c, rest⟩
  · -- the end of the input: `/..` is not the last component, or it would start a pattern
    have hne : segs ≠ [] := fun h ↦ by
      obtain ⟨r, hr⟩ := hinv.start h
      cases hr
    refine ⟨segs, hne, ⟨hinv.noSlash, hinv.proper, ?_⟩, by rw [normalizeLoop], by simp⟩
    rintro w hw rfl
    simpa [startsBad] using hinv.junction _ hw
  by_cases hc : c = '/'
  swap
  · -- another character extends the last component
    obtain ⟨init, w, rfl⟩ : ∃ init w, segs = init ++ [w] := by
      rcases segs.eq_nil_or_concat with h | ⟨init, w, h⟩
      · obtain ⟨r, hr⟩ := hinv.start h
        exact absurd (List.cons.inj hr).1 hc
      · exact ⟨init, w, by simpa using h⟩
    obtain ⟨segs', hne, hnorm, heq, hlen⟩ :=
      ih rest.length (by simp at hn; omega) rest rfl _ (hinv.copy hc)
    refine ⟨segs', hne, hnorm, ?_, ?_⟩
    · rw [normalizeLoop_of_ne _ hc, ← heq]
      simp
    · simp only [render_concat, List.length_append, List.length_cons, List.length_nil] at hlen ⊢
      omega
  subst hc
  cases hb : startsBad ('/' :: rest)
  · -- a `/` that starts no pattern is copied
    obtain ⟨segs', hne, hnorm, heq, hlen⟩ :=
      ih rest.length (by simp at hn; omega) rest rfl _ (hinv.copySlash hb)
    refine ⟨segs', hne, hnorm, ?_, ?_⟩
    · rw [normalizeLoop_slash _ hb, ← heq]
      simp
    · simp only [render_concat, List.length_append, List.length_cons, List.length_nil] at hlen ⊢
      omega
  rcases startsBad_cases hb with ⟨tl, rfl⟩ | ⟨tl, rfl⟩ | ⟨tl, rfl⟩ | rfl
  · -- `//`
    obtain ⟨segs', hne, hnorm, heq, hlen⟩ :=
      ih (tl.length + 1) (by simp at hn; omega) ('/' :: tl) rfl _ (hinv.reslash tl)
    refine ⟨segs', hne, hnorm, by rw [normalizeLoop_slashSlash, heq], ?_⟩
    simp only [List.length_cons] at hlen ⊢
    omega
  · -- `/./`
    obtain ⟨segs', hne, hnorm, heq, hlen⟩ :=
      ih (tl.length + 1) (by simp at hn; omega) ('/' :: tl) rfl _ (hinv.reslash tl)
    refine ⟨segs', hne, hnorm, by rw [normalizeLoop_dot, heq], ?_⟩
    simp only [List.length_cons] at hlen ⊢
    omega
  · -- `/../`: back up over the last component
    have hback := backUp_render hinv.noSlash
    have hshorter := length_backUp_le (render segs)
    obtain ⟨segs', hne, hnorm, heq, hlen⟩ :=
      ih (tl.length + 1) (by simp at hn; omega) ('/' :: tl) rfl _ (hinv.dropLast tl)
    refine ⟨segs', hne, hnorm, by rw [normalizeLoop_dotDot, hback, heq], ?_⟩
    rw [hback] at hshorter
    simp only [List.length_cons] at hlen ⊢
    omega
  · -- `/..` at the end: back up and write the `/` back
    have hback := backUp_render hinv.noSlash
    have hshorter := length_backUp_le (render segs)
    rw [hback] at hshorter
    refine ⟨segs.dropLast ++ [[]], by simp, ⟨?_, ?_, by simp⟩, ?_, ?_⟩
    · intro w hw
      rcases List.mem_append.1 hw with hw | hw
      · exact hinv.noSlash w (List.dropLast_subset _ hw)
      · simp_all
    · simpa using hinv.proper
    · rw [normalizeLoop_dotDot_end, hback, render_concat]
    · simp only [render_concat, List.length_append, List.length_cons, List.length_nil]
      omega

/-! ## Normal paths -/

/-- No suffix that starts at a `/` starts a rule's pattern. -/
def NoPattern (s : List Char) : Prop := ∀ t, t <:+ s → t.head? = some '/' → startsBad t = false

theorem startsBad_last {w : List Char} (hw : '/' ∉ w) (hdots : w ≠ ['.', '.']) :
    startsBad ('/' :: w) = false := by
  match w, hw with
  | [], _ => rfl
  | [a], hw =>
    have ha : a ≠ '/' := fun h ↦ hw (by simp [h])
    by_cases hadot : a = '.' <;> simp [startsBad, ha, hadot]
  | [a, b], hw =>
    have ha : a ≠ '/' := fun h ↦ hw (by simp [h])
    have hb : b ≠ '/' := fun h ↦ hw (by simp [h])
    by_cases hadot : a = '.' <;> by_cases hbdot : b = '.'
    · exact absurd (by rw [hadot, hbdot]) hdots
    all_goals simp [startsBad, ha, hb, hadot, hbdot]
  | a :: b :: c :: w', hw =>
    have ha : a ≠ '/' := fun h ↦ hw (by simp [h])
    have hb : b ≠ '/' := fun h ↦ hw (by simp [h])
    have hc : c ≠ '/' := fun h ↦ hw (by simp [h])
    by_cases hadot : a = '.' <;> by_cases hbdot : b = '.' <;> simp [startsBad, ha, hb, hc, hadot, hbdot]

namespace Normal

variable {w : List Char} {segs : List (List Char)}

theorem tail (h : Normal (w :: segs)) : Normal segs where
  noSlash v hv := h.noSlash v (List.mem_cons_of_mem _ hv)
  proper v hv := by
    cases segs with
    | nil => simp at hv
    | cons u segs => exact h.proper v (by simp only [List.dropLast_cons_cons]; exact .tail _ hv)
  last v hv := by
    cases segs with
    | nil => simp at hv
    | cons u segs => exact h.last v (by rwa [List.getLast?_cons_cons])

theorem startsBad_cons (h : Normal (w :: segs)) : startsBad ('/' :: (w ++ render segs)) = false := by
  have hw := h.noSlash w (by simp)
  cases segs with
  | nil => simpa using startsBad_last hw (h.last w (by simp))
  | cons u segs =>
    rw [render_cons]
    exact (startsBad_junction hw).2 (h.proper w (by simp))

end Normal

theorem suffix_of_append {w rest t : List Char} (hw : '/' ∉ w) (ht : t <:+ w ++ rest)
    (hhead : t.head? = some '/') : t <:+ rest := by
  induction w with
  | nil => simpa using ht
  | cons c w ih =>
    rcases List.suffix_cons_iff.1 ht with rfl | ht
    · have hc : c ≠ '/' := fun h ↦ hw (h ▸ List.mem_cons_self)
      simp_all
    · exact ih (fun h ↦ hw (List.mem_cons_of_mem _ h)) ht

theorem noPattern_render {segs : List (List Char)} (h : Normal segs) : NoPattern (render segs) := by
  induction segs with
  | nil =>
    intro t ht hhead
    simp_all
  | cons w segs ih =>
    intro t ht hhead
    rcases List.suffix_cons_iff.1 ht with rfl | ht
    · exact h.startsBad_cons
    · exact ih h.tail t (suffix_of_append (h.noSlash w (by simp)) ht hhead) hhead

theorem not_infix_of_noPattern {s bad : List Char} (hs : NoPattern s)
    (hbad : bad.head? = some '/') (hstarts : ∀ t, bad <+: t → startsBad t = true) :
    ¬ bad <:+: s := by
  rintro hinf
  obtain ⟨t, hpre, hsuf⟩ := List.infix_iff_prefix_suffix.1 hinf
  have hhead : t.head? = some '/' := by
    obtain ⟨u, rfl⟩ := hpre
    cases bad with
    | nil => simp at hbad
    | cons b bad => simpa using hbad
  have := hs t hsuf hhead
  simp_all

theorem normalizeLoop_clean {segs : List (List Char)} (h : Normal segs) (out : List Char) :
    normalizeLoop (render segs) out = out ++ render segs := by
  induction segs generalizing out with
  | nil => rw [render_nil, normalizeLoop, List.append_nil]
  | cons w segs ih =>
    rw [render_cons, normalizeLoop_slash _ h.startsBad_cons,
      normalizeLoop_copy _ (h.noSlash w (by simp)), ih h.tail]
    simp

/-! ## `normalize_path` -/

/-- Every absolute path is normalized: the result starts with `/`, fits in the input's buffer,
has no `//`, `/./` or `/../`, does not end in `/..`, and is its own normalization. -/
theorem normalizePath_normal (p : List Char) (hp : p.head? = some '/') :
    ∃ q, normalizePath p = some q ∧ q.head? = some '/' ∧ q.length ≤ p.length ∧
      ¬ ['/', '/'] <:+: q ∧ ¬ ['/', '.', '/'] <:+: q ∧ ¬ ['/', '.', '.', '/'] <:+: q ∧
      ¬ ['/', '.', '.'] <:+ q ∧ normalizePath q = some q := by
  obtain ⟨r, rfl⟩ : ∃ r, p = '/' :: r := by
    cases p with
    | nil => simp at hp
    | cons c r => exact ⟨r, by simp_all⟩
  have hinv : Inv [] ('/' :: r) := ⟨by simp, by simp, fun _ ↦ ⟨r, rfl⟩, by simp⟩
  obtain ⟨segs, hne, hnorm, heq, hlen⟩ := normalizeLoop_render _ ('/' :: r) rfl [] hinv
  obtain ⟨w, segs', rfl⟩ := List.exists_cons_of_ne_nil hne
  have hclean := noPattern_render hnorm
  refine ⟨render (w :: segs'), ?_, by simp, ?_, ?_, ?_, ?_, ?_, ?_⟩
  · rw [← heq]
    rfl
  · simpa using hlen
  · exact not_infix_of_noPattern hclean rfl fun t ⟨u, hu⟩ ↦ by subst hu; rfl
  · exact not_infix_of_noPattern hclean rfl fun t ⟨u, hu⟩ ↦ by subst hu; rfl
  · exact not_infix_of_noPattern hclean rfl fun t ⟨u, hu⟩ ↦ by subst hu; rfl
  · intro hsuf
    have := hclean _ hsuf rfl
    simp [startsBad] at this
  · rw [render_cons, normalizePath, ← render_cons, normalizeLoop_clean hnorm, List.nil_append]

/-- `normalize_path("/a/../../b")` is `"/b"`. -/
theorem normalizePath_normal_dotDot :
    ∃ q, normalizePath ['/', 'a', '/', '.', '.', '/', '.', '.', '/', 'b'] = some q ∧
      q.head? = some '/' ∧ q.length ≤ 10 ∧
      ¬ ['/', '/'] <:+: q ∧ ¬ ['/', '.', '/'] <:+: q ∧ ¬ ['/', '.', '.', '/'] <:+: q ∧
      ¬ ['/', '.', '.'] <:+ q ∧ normalizePath q = some q :=
  normalizePath_normal _ rfl

end Bionic.Linker.NormalizePath
