import Bionic.Lib.Pieces
import Bionic.Errno
import Mathlib.Algebra.Order.Ring.Nat

/-!
# `basename_r`, `dirname_r`, `basename` and `dirname`

Both functions scan back from the last character of the path with pointer loops, then share the
code after `Exit:` that copies the text into the caller's buffer. A path is the list of its
characters before the NUL, or `none` for `nullptr`.

The scans remove the slashes at the end, then the last component, then the slashes before it;
each loop is the list operation `List.rdropWhile` on the prefix it has not yet passed
(`scanBack_eq`, `scanStart_eq`). In components (`Bionic.Lib.Pieces.pieces '/'`):
`basenameText` is the last component, `/` for a path of slashes only and `.` for the empty
path (`basenameText_eq`); `dirnameText` is the path before its last component with the slashes
at its end removed, or `/` or `.` when the path has at most one component (`dirnameText_eq`).
Together they split the path's components, a relative path of one component gaining a `.`
(`dirname_basename_pieces`), and `basename` and `dirname` return these texts whenever they fit
the thread's buffer (`basename_dirname_of_fits`).

The copy compares the length with `static_cast<int>(buffer_size) - 1` and stores
`buffer_size - 1` in an `int`: only the low 32 bits of the size count. Below `INT_MAX` the
functions return the length and store the text, or store what fits and report `ERANGE`
(`basenameR_dirnameR_of_lt`); a size above it whose low bits are small is refused as if it were small
(`basenameR_dirnameR_erange`).
-/

set_option autoImplicit false
set_option relaxedAutoImplicit false

namespace Bionic.Libgen

open Bionic.Lib.Pieces

/-- `MAXPATHLEN`, also the size of the buffers of `basename` and `dirname`. -/
def maxPathLen : ℕ := 4096

/-- `*(path + i)`: a string reads as its characters, then its NUL. -/
def charAt (s : List Char) (i : ℕ) : Char := s.getD i '\x00'

/-- `while (endp > path && p(*endp)) endp--;` from `endp = path + e`. -/
def scanBack (p : Char → Bool) (s : List Char) : ℕ → ℕ
  | 0 => 0
  | e + 1 => if p (charAt s (e + 1)) then scanBack p s e else e + 1

/-- `while (startp > path && *(startp - 1) != '/') startp--;` from `startp = path + e`. -/
def scanStart (s : List Char) : ℕ → ℕ
  | 0 => 0
  | e + 1 => if charAt s e ≠ '/' then scanStart s e else e + 1

/-- What `__basename_r` copies out: `startp` and `len` when it reaches `Exit`. -/
def basenameText : Option (List Char) → List Char
  | none => ['.']
  | some s =>
    if s = [] then ['.']
    else
      -- strip trailing slashes
      let endp := scanBack (· == '/') s (s.length - 1)
      if endp = 0 ∧ charAt s endp = '/' then ['/']
      else
        let startp := scanStart s endp
        (s.drop startp).take (endp - startp + 1)

/-- What `__dirname_r` copies out: `path` and `len` when it reaches `Exit`. -/
def dirnameText : Option (List Char) → List Char
  | none => ['.']
  | some s =>
    if s = [] then ['.']
    else
      -- strip trailing slashes, then the last component
      let endp := scanBack (· == '/') s (s.length - 1)
      let endp := scanBack (· != '/') s endp
      if endp = 0 then if charAt s 0 = '/' then ['/'] else ['.']
      else
        -- `do { endp--; } while (endp > path && *endp == '/');`
        let endp := scanBack (· == '/') s (endp - 1)
        s.take (endp + 1)

/-- An `int` made from a `size_t`: its low 32 bits, read as two's complement. -/
def toInt (x : ℕ) : ℤ :=
  let low : ℕ := x % 2 ^ 32
  if low < 2 ^ 31 then (low : ℤ) else (low : ℤ) - 2 ^ 32

/-- What a call reports: its return, `errno` if it set it, and what it stored from `buffer[0]`
on. -/
structure Outcome where
  ret : ℤ
  errno : Option ℤ
  written : List Char
  deriving DecidableEq, Repr

/-- The code after `Exit:` that both functions share, copying `text` into a buffer of
`bufferSize` bytes (`none` for `nullptr`). The length is the `int len` it was stored in.
`static_cast<int>(buffer_size) - 1` and the `int` that `buffer_size - 1` is stored in are the
same number, the subtraction wrapping as the compiled code does. -/
def exitCopy (text : List Char) (buffer : Option ℕ) : Outcome :=
  let len := toInt text.length
  match buffer with
  | none => ⟨len, none, []⟩
  | some bufferSize =>
    let limit := toInt (bufferSize + (2 ^ 32 - 1))
    if len > limit then
      ⟨-1, some erange, if 0 ≤ limit then text.take limit.toNat ++ ['\x00'] else []⟩
    else ⟨len, none, if 0 ≤ len then text.take len.toNat ++ ['\x00'] else []⟩

/-- `basename_r`. -/
def basenameR (path : Option (List Char)) (buffer : Option ℕ) : Outcome :=
  exitCopy (basenameText path) buffer

/-- `dirname_r`: a result too long for `MAXPATHLEN` is refused before the buffer is looked at. -/
def dirnameR (path : Option (List Char)) (buffer : Option ℕ) : Outcome :=
  if toInt (dirnameText path).length + 1 > maxPathLen then ⟨-1, some enametoolong, []⟩
  else exitCopy (dirnameText path) buffer

/-- `basename`: the string left in the thread's `basename_buf`, or `nullptr`. -/
def basename (path : Option (List Char)) : Option (List Char) :=
  let o := basenameR path (some maxPathLen)
  if o.ret < 0 then none else some (o.written.takeWhile (· ≠ '\x00'))

/-- `dirname`: the string left in the thread's `dirname_buf`, or `nullptr`. -/
def dirname (path : Option (List Char)) : Option (List Char) :=
  let o := dirnameR path (some maxPathLen)
  if o.ret < 0 then none else some (o.written.takeWhile (· ≠ '\x00'))

example : basename (some "/usr/lib//".toList) = some "lib".toList := by decide
example : dirname (some "/usr/lib//".toList) = some "/usr".toList := by decide

/-! ### The loops as list operations -/

theorem charAt_of_lt {s : List Char} {i : ℕ} (h : i < s.length) : charAt s i = s[i] := by
  simp [charAt, h]

/-- The backward scan drops the characters of `p` at the end of the prefix it starts in, but
never the first character of the string. -/
theorem scanBack_eq (p : Char → Bool) (s : List Char) :
    ∀ e < s.length, scanBack p s e = ((s.take (e + 1)).rdropWhile p).length - 1
  | 0, _ => by
    have hle : ((s.take 1).rdropWhile p).length ≤ 1 :=
      (List.rdropWhile_prefix p _).length_le.trans (by simp [Nat.min_le_left])
    simp only [scanBack, Nat.zero_add]
    omega
  | e + 1, he => by
    rw [scanBack, charAt_of_lt he, List.take_succ_eq_append_getElem he, List.rdropWhile_concat]
    split_ifs with hp
    · exact scanBack_eq p s e (by omega)
    · simp only [List.length_append, List.length_take, List.length_singleton]
      omega

theorem scanStart_eq (s : List Char) :
    ∀ e ≤ s.length, scanStart s e = ((s.take e).rdropWhile (· != '/')).length
  | 0, _ => by simp [scanStart]
  | e + 1, he => by
    rw [scanStart, charAt_of_lt he, List.take_succ_eq_append_getElem he, List.rdropWhile_concat]
    by_cases hslash : s[e] = '/'
    · simp only [hslash, ne_eq, not_true_eq_false, if_false, bne_self_eq_false, Bool.false_eq_true,
        List.length_append, List.length_take, List.length_singleton]
      omega
    · simp only [hslash, ne_eq, not_false_eq_true, if_true, bne_iff_ne]
      exact scanStart_eq s e (by omega)

theorem scanBack_slash_end {s : List Char} (hs : s ≠ []) :
    scanBack (· == '/') s (s.length - 1) = (s.rdropWhile (· == '/')).length - 1 := by
  have hpos := List.length_pos_of_ne_nil hs
  rw [scanBack_eq _ _ _ (by omega), Nat.sub_add_cancel hpos, List.take_length]

theorem take_length_of_prefix {l s : List Char} (h : l <+: s) : s.take l.length = l :=
  (List.prefix_iff_eq_take.1 h).symm

/-! ### What the two functions compute, in components -/

/-- `basename_r` copies the last component, `/` for a path of slashes only and `.` for the empty
path. -/
theorem basenameText_eq (s : List Char) :
    basenameText (some s) = if s = [] then ['.'] else ((pieces '/' s).getLast?).getD ['/'] := by
  by_cases hs : s = []
  · simp [basenameText, hs]
  rw [basenameText, if_neg hs, if_neg hs, scanBack_slash_end hs]
  dsimp only
  -- `body`: the path without its slashes at the end
  have hbody : s.rdropWhile (· == '/') <+: s := List.rdropWhile_prefix _ s
  generalize hb : s.rdropWhile (· == '/') = body at hbody
  have hpieces : pieces '/' s = pieces '/' body := by rw [← hb, pieces_rdropWhile]
  by_cases hnil : body = []
  · -- a path of slashes only
    have hall : ∀ x ∈ s, x = '/' := by
      simpa using List.rdropWhile_eq_nil_iff.1 (hb.trans hnil)
    have h0 : charAt s 0 = '/' := by
      rw [charAt_of_lt (List.length_pos_of_ne_nil hs)]
      exact hall _ (List.getElem_mem _)
    simp [hnil, h0, hpieces]
  -- the last character of `body` is not a slash, and ends the last component
  have hlast : body.getLast hnil ≠ '/' := by
    have := List.rdropWhile_last_not (· == '/') s (hb ▸ hnil)
    simpa [hb] using this
  have hlen := List.length_pos_of_ne_nil hnil
  obtain ⟨t, rfl⟩ := hbody
  have hnotslash : ¬(body.length - 1 = 0 ∧ charAt (body ++ t) (body.length - 1) = '/') := by
    rintro ⟨h0, hc⟩
    rw [charAt_of_lt (by simp; omega), List.getElem_append_left (by omega)] at hc
    exact hlast (by rw [List.getLast_eq_getElem]; exact hc)
  have hdl : (body ++ t).take (body.length - 1) = body.dropLast := by
    rw [List.take_append_of_le_length (by omega), List.dropLast_eq_take]
  rw [if_neg hnotslash, scanStart_eq _ _ (by simp; omega), hdl]
  -- the start of the base: after the last slash of `body`
  have hdrop : body.dropLast.rdropWhile (· != '/') = body.rdropWhile (· != '/') := by
    conv_rhs => rw [← List.dropLast_append_getLast hnil]
    rw [List.rdropWhile_concat_pos _ _ _ (by simpa using hlast)]
  have hstart : (body.rdropWhile (· != '/')).length ≤ body.length - 1 := by
    rw [← hdrop]
    exact (List.rdropWhile_prefix _ _).length_le.trans (by simp)
  have hcount : (body.rdropWhile (· != '/')).length +
      (body.length - 1 - (body.rdropWhile (· != '/')).length + 1) = body.length := by omega
  rw [hdrop, List.take_drop, hcount, List.take_append_of_le_length le_rfl, List.take_length]
  rw [pieces_of_getLast_ne '/' hnil hlast] at hpieces
  rw [hpieces, List.getLast?_append, List.getLast?_singleton]
  have hsplit := @List.rdropWhile_append_rtakeWhile _ (· != '/') body
  calc body.drop (body.rdropWhile (· != '/')).length
      = (body.rdropWhile (· != '/') ++ body.rtakeWhile (· != '/')).drop
          (body.rdropWhile (· != '/')).length := by rw [hsplit]
    _ = body.rtakeWhile (· != '/') := List.drop_left
    _ = _ := by simp

theorem charAt_append_of_lt {l : List Char} (t : List Char) {i : ℕ} (h : i < l.length) :
    charAt (l ++ t) i = l[i] := by
  rw [charAt_of_lt (by simp; omega), List.getElem_append_left h]

theorem pieces_eq_nil_of_rdropWhile {l : List Char} (h : l.rdropWhile (· == '/') = []) :
    pieces '/' l = [] := by
  rw [← pieces_rdropWhile, h, pieces_nil]

/-- `dirname_r` copies the path before its last component with the slashes at its end removed,
or `/` or `.` when the path has at most one component. -/
theorem dirnameText_eq (s : List Char) :
    dirnameText (some s) =
      if (pieces '/' s).length ≤ 1 then if s.head? = some '/' then ['/'] else ['.']
      else ((s.rdropWhile (· == '/')).rdropWhile (· != '/')).rdropWhile (· == '/') := by
  by_cases hs : s = []
  · simp [dirnameText, hs]
  rw [dirnameText, if_neg hs, scanBack_slash_end hs]
  dsimp only
  have hbody : s.rdropWhile (· == '/') <+: s := List.rdropWhile_prefix _ s
  generalize hb : s.rdropWhile (· == '/') = body at hbody
  have hpieces : pieces '/' s = pieces '/' body := by rw [← hb, pieces_rdropWhile]
  by_cases hnil : body = []
  · -- a path of slashes only
    have hall : ∀ x ∈ s, x = '/' := by
      simpa using List.rdropWhile_eq_nil_iff.1 (hb.trans hnil)
    have hzero : pieces '/' s = [] := by rw [hpieces, hnil, pieces_nil]
    obtain ⟨c, s', rfl⟩ := List.exists_cons_of_ne_nil hs
    have hc : c = '/' := hall c (by simp)
    simp only [hzero, List.length_nil, Nat.zero_le, if_true]
    simp [hnil, scanBack, charAt, hc]
  have hlast : body.getLast hnil ≠ '/' := by
    have := List.rdropWhile_last_not (· == '/') s (hb ▸ hnil)
    simpa [hb] using this
  have hlen := List.length_pos_of_ne_nil hnil
  obtain ⟨t, rfl⟩ := hbody
  rw [pieces_of_getLast_ne '/' hnil hlast] at hpieces
  rw [scanBack_eq _ _ _ (by simp; omega), Nat.sub_add_cancel hlen,
    List.take_append_of_le_length le_rfl, List.take_length, hpieces, List.length_append,
    List.length_singleton]
  -- `pre`: `body` up to and with the slash before its last component
  have hpre : body.rdropWhile (· != '/') <+: body := List.rdropWhile_prefix _ body
  generalize hp : body.rdropWhile (· != '/') = pre at hpre
  by_cases hpnil : pre = []
  · -- one relative component
    have hfirst : body[0] ≠ '/' := by
      have := List.rdropWhile_eq_nil_iff.1 (hp.trans hpnil) body[0] (List.getElem_mem _)
      simpa using this
    simp only [hpnil, pieces_nil, List.length_nil, Nat.zero_add, le_refl, if_true,
      charAt_append_of_lt t hlen, if_neg hfirst, List.head?_eq_getElem?,
      List.getElem?_append_left hlen, List.getElem?_eq_getElem hlen, Option.some.injEq]
  -- `pre` ends in the slash before the last component
  have hplast : pre.getLast hpnil = '/' := by
    have := List.rdropWhile_last_not (· != '/') body (hp ▸ hpnil)
    simpa [hp] using this
  have hplen := List.length_pos_of_ne_nil hpnil
  have hpieces_pre : pieces '/' pre = pieces '/' pre.dropLast := by
    conv_lhs => rw [← List.dropLast_append_getLast hpnil, hplast, pieces_append_singleton]
  have hfirst : charAt (body ++ t) 0 = pre[0] := by
    obtain ⟨u, rfl⟩ := hpre
    rw [List.append_assoc, charAt_append_of_lt _ hplen]
  have hhead : (body ++ t).head? = some pre[0] := by
    obtain ⟨u, rfl⟩ := hpre
    rw [List.append_assoc, List.head?_append, List.head?_eq_getElem?, List.getElem?_eq_getElem hplen]
    rfl
  by_cases hone : pre.length = 1
  · -- `pre` is the one slash before the only component
    have hslash : pre[0] = '/' := by
      rw [← hplast, List.getLast_eq_getElem]
      simp [hone]
    have hpz : pieces '/' pre = [] := by
      rw [hpieces_pre, List.dropLast_eq_take, hone, List.take_zero, pieces_nil]
    simp [hone, hfirst, hslash, hpz, hhead]
  -- the third loop leaves `endp` on the last character of `pre` that is not a slash
  obtain ⟨u, hu⟩ := hpre
  have htake : (body ++ t).take (pre.length - 1) = pre.dropLast := by
    rw [← hu, List.append_assoc, List.take_append_of_le_length (by omega), List.dropLast_eq_take]
  rw [if_neg (by omega), scanBack_eq _ _ _ (by rw [← hu]; simp; omega),
    Nat.sub_add_cancel (by omega : 1 ≤ pre.length - 1), htake]
  have hq : pre.dropLast.rdropWhile (· == '/') = pre.rdropWhile (· == '/') := by
    conv_rhs => rw [← List.dropLast_append_getLast hpnil]
    rw [List.rdropWhile_concat_pos _ _ _ (by simp [hplast])]
  rw [hq]
  have hqpre : pre.rdropWhile (· == '/') <+: pre := List.rdropWhile_prefix _ _
  have hpq : pieces '/' pre = pieces '/' (pre.rdropWhile (· == '/')) := by rw [pieces_rdropWhile]
  generalize hqq : pre.rdropWhile (· == '/') = q at hqpre hpq
  by_cases hqnil : q = []
  · -- `pre` is slashes only: the path has one component after them
    have hslash : pre[0] = '/' := by
      have := List.rdropWhile_eq_nil_iff.1 (hqq.trans hqnil) pre[0] (List.getElem_mem _)
      simpa using this
    have htake1 : (body ++ t).take 1 = [pre[0]] := by
      rw [← hu, List.append_assoc, List.take_append_of_le_length (by omega), List.take_one,
        List.head?_eq_getElem?, List.getElem?_eq_getElem hplen]
      rfl
    simp [hqnil, hpq, htake1, hslash, hhead]
  · -- `q` ends in a character of the component before the last
    have hqlen := List.length_pos_of_ne_nil hqnil
    have hqlast : q.getLast hqnil ≠ '/' := by
      have := List.rdropWhile_last_not (· == '/') pre (hqq ▸ hqnil)
      simpa [hqq] using this
    have hqpieces : pieces '/' q ≠ [] := by
      rw [Ne, pieces_eq_nil_iff]
      intro hall
      exact hqlast (hall _ (List.getLast_mem hqnil))
    have hqtake : (body ++ t).take q.length = q := by
      rw [← hu, List.append_assoc]
      exact take_length_of_prefix (hqpre.trans (List.prefix_append _ _))
    have hcount : 1 < (pieces '/' q).length + 1 := by
      have := List.length_pos_of_ne_nil hqpieces
      omega
    rw [Nat.sub_add_cancel hqlen, hqtake, hpq, if_neg (by omega)]

/-- The components of a path: those before the last one, which end where `dirname` looks, then
the last one. -/
theorem pieces_eq_append_last {s : List Char} (hs : pieces '/' s ≠ []) :
    pieces '/' s = pieces '/' ((s.rdropWhile (· == '/')).rdropWhile (· != '/')) ++
      [(s.rdropWhile (· == '/')).rtakeWhile (· != '/')] := by
  have hbody : s.rdropWhile (· == '/') ≠ [] := fun h ↦ hs (pieces_eq_nil_of_rdropWhile h)
  have hlast := List.rdropWhile_last_not (· == '/') s hbody
  rw [← pieces_rdropWhile, pieces_of_getLast_ne '/' hbody (by simpa using hlast)]

/-- When the path has a component, the components of `dirname` and then `basename` are those of
the path, with a `.` in front for a relative path of one component; and `dirname` starts with a
slash iff the path does. -/
theorem dirname_basename_pieces (s : List Char) :
    (pieces '/' s ≠ [] →
      pieces '/' (dirnameText (some s)) ++ [basenameText (some s)] =
        if (pieces '/' s).length = 1 ∧ s.head? ≠ some '/' then ['.'] :: pieces '/' s
        else pieces '/' s) ∧
      ((dirnameText (some s)).head? = some '/' ↔ s.head? = some '/') := by
  by_cases hnil : pieces '/' s = []
  · -- no component: `dirname` is `/` or `.`
    refine ⟨fun h ↦ absurd hnil h, ?_⟩
    rw [dirnameText_eq, if_pos (by simp [hnil])]
    split_ifs with hhead <;> simp [hhead]
  have hs : s ≠ [] := by rintro rfl; simp at hnil
  have hsplit := pieces_eq_append_last hnil
  -- `q`: the path before its last component, without its slashes at the end
  have hq : pieces '/' (((s.rdropWhile (· == '/')).rdropWhile (· != '/')).rdropWhile (· == '/')) =
      pieces '/' ((s.rdropWhile (· == '/')).rdropWhile (· != '/')) := pieces_rdropWhile _ _
  rw [dirnameText_eq, basenameText_eq, if_neg hs, hsplit, List.getLast?_append,
    List.getLast?_singleton, Option.some_or, Option.getD_some, List.length_append,
    List.length_singleton]
  have hpre : ((s.rdropWhile (· == '/')).rdropWhile (· != '/')).rdropWhile (· == '/') <+: s :=
    ((List.rdropWhile_prefix _ _).trans (List.rdropWhile_prefix _ _)).trans
      (List.rdropWhile_prefix _ _)
  generalize ((s.rdropWhile (· == '/')).rdropWhile (· != '/')) = pre at hsplit hq hpre ⊢
  generalize (s.rdropWhile (· == '/')).rtakeWhile (· != '/') = c at hsplit
  by_cases hone : pieces '/' pre = []
  · -- one component: `dirname` is `/` or `.`
    have hslash : pieces '/' ['/'] = [] := by simp [pieces_eq_nil_iff]
    have hdot : pieces '/' ['.'] = [['.']] := by simp [pieces_of_forall_ne]
    rw [hone]
    by_cases hhead : s.head? = some '/'
    · simp [hhead, hslash]
    · simp [hhead, hdot]
  · have hlen := List.length_pos_of_ne_nil hone
    rw [if_neg (by omega), if_neg (by omega)]
    refine ⟨fun _ ↦ by rw [hq], ?_⟩
    -- a non-empty prefix of the path starts where the path does
    have hqnil : pre.rdropWhile (· == '/') ≠ [] := by
      intro h
      rw [h, pieces_nil] at hq
      exact hone hq.symm
    obtain ⟨u, hu⟩ := hpre
    rw [← hu, List.head?_append_of_ne_nil _ hqnil]

/-! ### The copy into the caller's buffer -/

theorem toInt_of_lt {n : ℕ} (h : n < 2 ^ 31) : toInt n = n := by
  unfold toInt
  rw [Nat.mod_eq_of_lt (by omega), if_pos h]

theorem toInt_limit_of_lt {bufferSize : ℕ} (h : bufferSize < 2 ^ 31) :
    toInt (bufferSize + (2 ^ 32 - 1)) = (bufferSize : ℤ) - 1 := by
  unfold toInt
  dsimp only
  rcases Nat.eq_zero_or_pos bufferSize with rfl | hpos
  · decide
  · have hmod : (bufferSize + (2 ^ 32 - 1)) % 2 ^ 32 = bufferSize - 1 := by omega
    rw [if_pos (by omega), hmod]
    omega

/-- A buffer below `INT_MAX`: the copy stores the text and its NUL if it fits, and otherwise
what fits with a NUL and `ERANGE`; nothing for a buffer of no bytes. -/
theorem exitCopy_of_lt {text : List Char} (htext : text.length < 2 ^ 31) {bufferSize : ℕ}
    (h : bufferSize < 2 ^ 31) :
    exitCopy text (some bufferSize) =
      if text.length < bufferSize then ⟨text.length, none, text ++ ['\x00']⟩
      else ⟨-1, some erange,
        if bufferSize = 0 then [] else text.take (bufferSize - 1) ++ ['\x00']⟩ := by
  rw [exitCopy, toInt_of_lt htext, toInt_limit_of_lt h]
  by_cases hfit : text.length < bufferSize
  · rw [if_neg (by omega), if_pos hfit]
    simp
  · rw [if_pos (by omega), if_neg hfit]
    by_cases h0 : bufferSize = 0
    · simp [h0]
    · rw [if_pos (by omega), if_neg h0]
      congr
      omega

/-- A size above `INT_MAX + 1` that fits 32 bits makes `static_cast<int>(buffer_size) - 1`
negative: every text is refused with `ERANGE`, and nothing is stored. -/
theorem exitCopy_of_gt_intMax {text : List Char} (htext : text.length < 2 ^ 31) {bufferSize : ℕ}
    (hsize : 2 ^ 31 < bufferSize ∧ bufferSize < 2 ^ 32) :
    exitCopy text (some bufferSize) = ⟨-1, some erange, []⟩ := by
  have hlimit : toInt (bufferSize + (2 ^ 32 - 1)) = (bufferSize : ℤ) - 1 - 2 ^ 32 := by
    have hmod : (bufferSize + (2 ^ 32 - 1)) % 2 ^ 32 = bufferSize - 1 := by omega
    unfold toInt
    rw [hmod, if_neg (by omega)]
    omega
  rw [exitCopy, toInt_of_lt htext, hlimit, if_pos (by omega), if_neg (by omega)]

/-! ### The functions -/

/-- With a buffer below `INT_MAX`: `basename_r` and `dirname_r` return the length of the text and
store it with its NUL when it fits, and otherwise return -1 with `ERANGE` and store what fits;
with `nullptr` they return the length and store nothing. `dirname_r` first refuses a text too
long for `MAXPATHLEN` with `ENAMETOOLONG`. -/
theorem basenameR_dirnameR_of_lt (path : Option (List Char)) {bufferSize : ℕ}
    (h : bufferSize < 2 ^ 31) (hb : (basenameText path).length < 2 ^ 31)
    (hd : (dirnameText path).length < 2 ^ 31) :
    basenameR path none = ⟨(basenameText path).length, none, []⟩ ∧
      basenameR path (some bufferSize) =
        (if (basenameText path).length < bufferSize then
          ⟨(basenameText path).length, none, basenameText path ++ ['\x00']⟩
        else ⟨-1, some erange, if bufferSize = 0 then []
          else (basenameText path).take (bufferSize - 1) ++ ['\x00']⟩) ∧
      dirnameR path (some bufferSize) =
        (if (dirnameText path).length + 1 > maxPathLen then ⟨-1, some enametoolong, []⟩
        else if (dirnameText path).length < bufferSize then
          ⟨(dirnameText path).length, none, dirnameText path ++ ['\x00']⟩
        else ⟨-1, some erange, if bufferSize = 0 then []
          else (dirnameText path).take (bufferSize - 1) ++ ['\x00']⟩) := by
  refine ⟨by rw [basenameR, exitCopy, toInt_of_lt hb], exitCopy_of_lt hb h, ?_⟩
  rw [dirnameR, exitCopy_of_lt hd h, toInt_of_lt hd]
  norm_cast

theorem basenameR_dirnameR_of_lt_usr :
    (4096 : ℕ) < 2 ^ 31 ∧ (basenameText (some "/usr/lib".toList)).length < 2 ^ 31 ∧
      (dirnameText (some "/usr/lib".toList)).length < 2 ^ 31 ∧
      basenameR (some "/usr/lib".toList) none = ⟨3, none, []⟩ ∧
      basenameR (some "/usr/lib".toList) (some 4096) =
        (if (basenameText (some "/usr/lib".toList)).length < 4096 then
          ⟨(basenameText (some "/usr/lib".toList)).length, none,
            basenameText (some "/usr/lib".toList) ++ ['\x00']⟩
        else ⟨-1, some erange, if (4096 : ℕ) = 0 then []
          else (basenameText (some "/usr/lib".toList)).take (4096 - 1) ++ ['\x00']⟩) ∧
      dirnameR (some "/usr/lib".toList) (some 4096) =
        (if (dirnameText (some "/usr/lib".toList)).length + 1 > maxPathLen then
          ⟨-1, some enametoolong, []⟩
        else if (dirnameText (some "/usr/lib".toList)).length < 4096 then
          ⟨(dirnameText (some "/usr/lib".toList)).length, none,
            dirnameText (some "/usr/lib".toList) ++ ['\x00']⟩
        else ⟨-1, some erange, if (4096 : ℕ) = 0 then []
          else (dirnameText (some "/usr/lib".toList)).take (4096 - 1) ++ ['\x00']⟩) :=
  ⟨by decide, by decide, by decide,
    basenameR_dirnameR_of_lt (some "/usr/lib".toList) (by decide) (by decide) (by decide)⟩

/-- On ILP32 a `buffer_size` between `INT_MAX + 1` and `2 ^ 32` makes the copy's limit
negative: `basename_r` refuses every text with `ERANGE`, and `dirname_r` with `ERANGE` or
`ENAMETOOLONG`; neither stores a byte, however short the text. -/
theorem basenameR_dirnameR_erange (path : Option (List Char)) {bufferSize : ℕ}
    (hsize : 2 ^ 31 < bufferSize ∧ bufferSize < 2 ^ 32) (hb : (basenameText path).length < 2 ^ 31)
    (hd : (dirnameText path).length < 2 ^ 31) :
    basenameR path (some bufferSize) = ⟨-1, some erange, []⟩ ∧
      dirnameR path (some bufferSize) =
        if (dirnameText path).length + 1 > maxPathLen then ⟨-1, some enametoolong, []⟩
        else ⟨-1, some erange, []⟩ := by
  refine ⟨exitCopy_of_gt_intMax hb hsize, ?_⟩
  rw [dirnameR, exitCopy_of_gt_intMax hd hsize, toInt_of_lt hd]
  norm_cast

theorem basenameR_dirnameR_erange_twoPow31 :
    (2 ^ 31 < 2 ^ 31 + 1 ∧ 2 ^ 31 + 1 < 2 ^ 32) ∧
      (basenameText (some "/abcd/efgh".toList)).length < 2 ^ 31 ∧
      (dirnameText (some "/abcd/efgh".toList)).length < 2 ^ 31 ∧
      basenameR (some "/abcd/efgh".toList) (some (2 ^ 31 + 1)) = ⟨-1, some erange, []⟩ ∧
      dirnameR (some "/abcd/efgh".toList) (some (2 ^ 31 + 1)) =
        if (dirnameText (some "/abcd/efgh".toList)).length + 1 > maxPathLen then
          ⟨-1, some enametoolong, []⟩
        else ⟨-1, some erange, []⟩ :=
  have hsize : 2 ^ 31 < 2 ^ 31 + 1 ∧ 2 ^ 31 + 1 < 2 ^ 32 := by decide
  have hb : (basenameText (some "/abcd/efgh".toList)).length < 2 ^ 31 := by decide
  have hd : (dirnameText (some "/abcd/efgh".toList)).length < 2 ^ 31 := by decide
  ⟨hsize, hb, hd, basenameR_dirnameR_erange (some "/abcd/efgh".toList) hsize hb hd⟩

/-! ### The strings `basename` and `dirname` return -/

theorem nul_not_mem_basenameText {s : List Char} (hnul : '\x00' ∉ s) :
    '\x00' ∉ basenameText (some s) := by
  rw [basenameText_eq]
  split_ifs
  · simp
  · cases hlast : (pieces '/' s).getLast? with
    | none => simp
    | some c =>
      have hc : c ∈ pieces '/' s := List.mem_of_getLast? hlast
      exact fun hx ↦ hnul (mem_of_mem_pieces '/' hc hx)

theorem nul_not_mem_dirnameText {s : List Char} (hnul : '\x00' ∉ s) :
    '\x00' ∉ dirnameText (some s) := by
  rw [dirnameText_eq]
  split_ifs
  · simp
  · simp
  · -- a prefix of the path
    have hpre : ((s.rdropWhile (· == '/')).rdropWhile (· != '/')).rdropWhile (· == '/') <+: s :=
      ((List.rdropWhile_prefix _ _).trans (List.rdropWhile_prefix _ _)).trans
        (List.rdropWhile_prefix _ _)
    exact fun hx ↦ hnul (hpre.subset hx)

theorem takeWhile_append_nul {text : List Char} (h : '\x00' ∉ text) :
    (text ++ ['\x00']).takeWhile (· ≠ '\x00') = text := by
  have hall : ∀ x ∈ text, decide (x ≠ '\x00') = true := by
    intro x hx
    simp only [ne_eq, decide_eq_true_eq]
    rintro rfl
    exact h hx
  rw [List.takeWhile_append_of_pos hall]
  simp

/-- For a string whose result fits the thread's buffer, `basename` returns the last component
(`/` for slashes only, `.` for the empty string) and `dirname` the path before the last
component without its slashes at the end (`/` or `.` for at most one component). -/
theorem basename_dirname_of_fits (s : List Char) (hnul : '\x00' ∉ s)
    (hb : (basenameText (some s)).length < maxPathLen)
    (hd : (dirnameText (some s)).length < maxPathLen) :
    basename (some s) = some (if s = [] then ['.'] else ((pieces '/' s).getLast?).getD ['/']) ∧
      dirname (some s) = some
        (if (pieces '/' s).length ≤ 1 then if s.head? = some '/' then ['/'] else ['.']
        else ((s.rdropWhile (· == '/')).rdropWhile (· != '/')).rdropWhile (· == '/')) := by
  have hmax : maxPathLen < 2 ^ 31 := by decide
  constructor
  · rw [basename, basenameR, exitCopy_of_lt (hb.trans hmax) hmax, if_pos hb]
    dsimp only
    rw [if_neg (by omega), takeWhile_append_nul (nul_not_mem_basenameText hnul), basenameText_eq]
  · have hfit : ¬(toInt (dirnameText (some s)).length + 1 > maxPathLen) := by
      rw [toInt_of_lt (hd.trans hmax)]
      omega
    rw [dirname, dirnameR, if_neg hfit, exitCopy_of_lt (hd.trans hmax) hmax, if_pos hd]
    dsimp only
    rw [if_neg (by omega), takeWhile_append_nul (nul_not_mem_dirnameText hnul), dirnameText_eq]

theorem basename_dirname_of_fits_usr :
    '\x00' ∉ "/usr/lib".toList ∧ (basenameText (some "/usr/lib".toList)).length < maxPathLen ∧
      (dirnameText (some "/usr/lib".toList)).length < maxPathLen ∧
      basename (some "/usr/lib".toList) = some (if "/usr/lib".toList = [] then ['.']
        else ((pieces '/' "/usr/lib".toList).getLast?).getD ['/']) ∧
      dirname (some "/usr/lib".toList) = some
        (if (pieces '/' "/usr/lib".toList).length ≤ 1 then
          if "/usr/lib".toList.head? = some '/' then ['/'] else ['.']
        else (("/usr/lib".toList.rdropWhile (· == '/')).rdropWhile (· != '/')).rdropWhile
          (· == '/')) :=
  have hnul : '\x00' ∉ "/usr/lib".toList := by decide
  have hb : (basenameText (some "/usr/lib".toList)).length < maxPathLen := by decide
  have hd : (dirnameText (some "/usr/lib".toList)).length < maxPathLen := by decide
  ⟨hnul, hb, hd, basename_dirname_of_fits "/usr/lib".toList hnul hb hd⟩

end Bionic.Libgen
