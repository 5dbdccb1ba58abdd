import Kernel391.Lib.Lines
import Kernel391.UserPrograms

/-!
# `do_one_file` of `grep` (`ece391grep.c`)

The search through one file: the program reads it in pieces of up to 1024 bytes, goes through
the lines it has, and moves the beginning of a line that the piece cuts off to the front of its
array. Every run prints the lines with the pattern, in order, each behind the file's name
(`do_one_file_runs`), if the file is a text, no line has more than 1024 bytes, and the last byte
of the array, which the program looks at without having written it, is no newline when it starts.
The runs are those in which others do between the program's calls what `Spares` allows. An empty
pattern is left out: the program finds it nowhere.
-/

namespace Kernel391

open Lines Programs Stream TransitionSystem Words

/-! ## The program -/

def BUFSIZE : ℕ := 1024

def ece391_strncmpFrom (s1 s2 : Bytes) : ℕ → ℕ → ℤ
  | 0, _ => 0
  | n + 1, i =>
    if s1 i = s2 i then
      if s1 i = 0 ∨ n = 0 then 0 else ece391_strncmpFrom s1 s2 n (i + 1)
    else (s1 i).toNat - (s2 i).toNat

def ece391_strncmp (s1 s2 : Bytes) (n : ℕ) : ℤ := ece391_strncmpFrom s1 s2 n 0

/-- The loop of `ece391_strcpy` with byte `j`; `dst` and `src` lie in one array. -/
def ece391_strcpyFrom (src : ℕ) : ℕ → ℕ → Bytes → Bytes
  | 0, _, data => data
  | n + 1, j, data =>
    let data' := Function.update data j (data (src + j))
    if data (src + j) = 0 then data' else ece391_strcpyFrom src n (j + 1) data'

/-- `ece391_strcpy(data, data + src)`. -/
def ece391_strcpy (data : Bytes) (src : ℕ) : Bytes :=
  ece391_strcpyFrom src (strlen (fun j => data (src + j)) + 1) 0 data

/-- The array after `read` has stored bytes from `start` on. -/
def storeFrom (start : ℕ) (stored : List UInt8) (data : Bytes) : Bytes := fun j =>
  if start ≤ j then stored[j - start]?.getD (data j) else data j

/-- `while (line_end < last && '\n' != data[line_end]) line_end++;` -/
def lineEnd (data : Bytes) (last line_start : ℕ) : ℕ :=
  scanFuel (· != NEWLINE) data (last - line_start) line_start

/-- The search of one line for `s`. -/
def lineMatches (s data : Bytes) (line_start line_end : ℕ) : Bool :=
  (List.range (line_end - line_start)).any fun j =>
    s 0 == data (line_start + j) &&
      ece391_strncmp (fun k => data (line_start + j + k)) s (ece391_strlen s) == 0

def printLine (fname line : Bytes) : UserProg Unit := do
  ece391_fdputs 1 fname
  ece391_fdputs 1 (message ":".toList)
  ece391_fdputs 1 line
  ece391_fdputs 1 (message "\n".toList)

/-- The inner loop, with the array and `line_start`; it leaves the array and `last`. -/
def lineRound (s fname : Bytes) (cnt : ℤ) (last : ℕ) (x : Bytes × ℕ) :
    UserProg ((Bytes × ℕ) ⊕ (Bytes × ℕ)) := do
  let line_end := lineEnd x.1 last x.2
  let data := Function.update x.1 line_end 0
  if x.1 line_end ≠ NEWLINE ∧ cnt ≠ 0 ∧ x.2 ≠ 0 then
    return .inr (ece391_strcpy data x.2, last - x.2)
  else do
    if lineMatches s data x.2 line_end then
      printLine fname fun j => data (x.2 + j)
    if line_end + 1 ≥ last then return .inr (data, 0) else return .inl (data, line_end + 1)

/-- The outer loop, with the array and `last`; it tells whether the file has been read. -/
def fileRound (s fname : Bytes) (fd : ℤ) (x : Bytes × ℕ) :
    UserProg ((Bytes × ℕ) ⊕ Bool) := do
  let cnt ← ece391_read fd (BUFSIZE - x.2)
  if cnt.ret = -1 then do
    ece391_fdputs 1 (message "file read failed\n".toList)
    return .inr false
  else do
    let rest ← Prog.repeatUntil (lineRound s fname cnt.ret (x.2 + cnt.ret.toNat))
      (storeFrom x.2 cnt.stored x.1, 0)
    if cnt.ret = 0 then return .inr true else return .inl rest

/-- `data` is the array as it lies on the stack. -/
def do_one_file (s fname data : Bytes) : UserProg ℤ := do
  let fd ← ece391_open fname
  if fd.ret = -1 then do
    ece391_fdputs 1 (message "file open failed\n".toList)
    return -1
  else do
    let done ← Prog.repeatUntil (fileRound s fname fd.ret) (data, 0)
    if done then do
      let r ← ece391_close fd.ret
      if r.ret = -1 then do
        ece391_fdputs 1 (message "file close failed\n".toList)
        return -1
      else return 0
    else return -1

/-! ## The lines it prints -/

/-- A line with the pattern, behind the file's name. -/
def matchingLine (pattern name line : List UInt8) : List UInt8 :=
  if pattern <:+: line then name ++ (0x3a :: (line ++ [NEWLINE])) else []

theorem matchingLine_nil {pattern name : List UInt8} (h : pattern ≠ []) :
    matchingLine pattern name [] = [] := by
  unfold matchingLine
  rw [if_neg fun hin => h (List.eq_nil_of_infix_nil hin)]

/-- What a search of the text `t` prints. -/
def matchingLines (pattern name t : List UInt8) : List UInt8 :=
  perLine NEWLINE (matchingLine pattern name) t

/-! ## Its string functions -/

theorem ece391_strncmpFrom_eq_zero {s1 s2 : Bytes} {n i : ℕ} (hne : ∀ k < n, s2 (i + k) ≠ 0) :
    ece391_strncmpFrom s1 s2 n i = 0 ↔ ∀ k < n, s1 (i + k) = s2 (i + k) := by
  induction n generalizing i with
  | zero => simp [ece391_strncmpFrom]
  | succ n ih =>
    have hrest : (∀ k < n + 1, s1 (i + k) = s2 (i + k)) ↔
        s1 i = s2 i ∧ ∀ k < n, s1 (i + 1 + k) = s2 (i + 1 + k) := by
      rw [Nat.forall_lt_succ_left]
      simp only [Nat.add_zero, Nat.add_assoc, Nat.add_comm 1]
    rw [hrest, ece391_strncmpFrom]
    by_cases heq : s1 i = s2 i
    · have h0 : s1 i ≠ 0 := heq ▸ hne 0 (Nat.succ_pos n)
      rw [if_pos heq]
      by_cases hn : n = 0
      · subst hn
        simp [heq]
      · rw [if_neg (not_or.mpr ⟨h0, hn⟩), ih fun k hk => ?_]
        · simp only [heq, true_and]
        · rw [Nat.add_assoc, Nat.add_comm 1]
          exact hne (k + 1) (by omega)
    · rw [if_neg heq]
      refine ⟨fun hzero => absurd ?_ heq, fun h => absurd h.1 heq⟩
      exact UInt8.toNat_inj.mp (by omega)

/-- The bytes up to the NUL move down, the others stay. -/
theorem ece391_strcpyFrom_apply {data : Bytes} {src len j : ℕ} (hsrc : 0 < src)
    (hne : ∀ k < len, data (src + j + k) ≠ 0) (hnul : data (src + j + len) = 0) (k : ℕ) :
    ece391_strcpyFrom src (len + 1) j data k =
      if j ≤ k ∧ k ≤ j + len then data (src + k) else data k := by
  induction len generalizing j data with
  | zero =>
    have h0 : data (src + j) = 0 := hnul
    rw [ece391_strcpyFrom, if_pos h0]
    by_cases hk : k = j
    · rw [hk, Function.update_self, if_pos ⟨Nat.le_refl j, Nat.le_refl j⟩]
    · rw [Function.update_of_ne hk, if_neg (by omega)]
  | succ len ih =>
    have h0 : data (src + j) ≠ 0 := hne 0 (Nat.succ_pos len)
    have hahead : ∀ i, j < i → Function.update data j (data (src + j)) i = data i :=
      fun i hi => Function.update_of_ne (by omega) _ _
    rw [ece391_strcpyFrom, if_neg h0, ih]
    · by_cases hk : j < k
      · rw [hahead _ (by omega), hahead k hk]
        simp only [show (j + 1 ≤ k ∧ k ≤ j + 1 + len) ↔ (j ≤ k ∧ k ≤ j + (len + 1)) by omega]
      · rw [if_neg (by omega)]
        by_cases heq : k = j
        · rw [heq, Function.update_self, if_pos (by omega)]
        · rw [Function.update_of_ne heq, if_neg (by omega)]
    · intro i hi
      rw [hahead _ (by omega), show src + (j + 1) + i = src + j + (i + 1) by omega]
      exact hne (i + 1) (by omega)
    · rw [hahead _ (by omega), show src + (j + 1) + len = src + j + (len + 1) by omega]
      exact hnul

section
variable {s fname data : Bytes} {a e last : ℕ}

theorem text_from (hae : a ≤ e) (he : e < addressSpace) (hne : (0 : UInt8) ∉ segment data a e)
    (hnul : data e = 0) : text (fun j => data (a + j)) = segment data a e := by
  refine HoldsBytes.text_eq ⟨fun j hj => ?_, ?_⟩ (fun b hb h0 => hne (h0 ▸ hb)) ?_
  · rw [getElem_segment]
  · show data (a + (segment data a e).length) = 0
    rw [length_segment, Nat.add_sub_cancel' hae]
    exact hnul
  · rw [length_segment]
    omega

/-- What lies from `a` to the NUL at `e` moves to the front. -/
theorem ece391_strcpy_apply (ha : 0 < a) (hae : a ≤ e) (he : e < addressSpace)
    (hne : (0 : UInt8) ∉ segment data a e) (hnul : data e = 0) (k : ℕ) :
    ece391_strcpy data a k = if k ≤ e - a then data (a + k) else data k := by
  have hlen : strlen (fun j => data (a + j)) = e - a := by
    rw [← text_length, text_from hae he hne hnul, length_segment]
  unfold ece391_strcpy
  rw [hlen, ece391_strcpyFrom_apply ha ?_ ?_]
  · simp only [Nat.zero_le, true_and, Nat.zero_add]
  · intro i hi h0
    exact hne (mem_segment.mpr ⟨a + 0 + i, by omega, by omega, h0⟩)
  · rw [show a + 0 + (e - a) = e by omega]
    exact hnul

/-- The line has the pattern in it, which is not empty. -/
theorem lineMatches_iff (hs : text s ≠ []) (hnul : data e = 0) :
    lineMatches s data a e = true ↔ text s <:+: segment data a e := by
  have hlen : ece391_strlen s = (text s).length := text_length.symm
  have hpos : 0 < (text s).length := List.length_pos_iff.mpr hs
  have hchar : ∀ k < (text s).length, s k ≠ 0 := by
    intro k hk
    rw [text_length] at hk
    exact ne_zero_of_lt_strlen hk
  rw [lineMatches, List.any_eq_true, List.infix_iff_getElem?]
  simp only [List.mem_range, Bool.and_eq_true, beq_iff_eq, length_segment]
  constructor
  · rintro ⟨j, hj, -, hcmp⟩
    have heq := (ece391_strncmpFrom_eq_zero (i := 0) fun k hk => by
      rw [Nat.zero_add]
      exact hchar k (hlen ▸ hk)).mp hcmp
    rw [hlen] at heq
    have hfit : (text s).length + j ≤ e - a := by
      -- otherwise the NUL would be a letter of the pattern
      by_contra hlt
      have hend := heq (e - a - j) (by omega)
      rw [Nat.zero_add, show a + j + (e - a - j) = e by omega, hnul] at hend
      exact hchar _ (by omega) hend.symm
    refine ⟨j, hfit, fun k hk => ?_⟩
    rw [List.getElem?_eq_getElem (by rw [length_segment]; omega), getElem_segment, text_getElem]
    have hk' := heq k hk
    rw [Nat.zero_add] at hk'
    rw [← hk', show a + (k + j) = a + j + k by omega]
  · rintro ⟨j, hfit, heq⟩
    have hbyte : ∀ k < (text s).length, data (a + j + k) = s k := by
      intro k hk
      have hk' := heq k hk
      rw [List.getElem?_eq_getElem (by rw [length_segment]; omega), getElem_segment,
        text_getElem, Option.some.injEq] at hk'
      rw [← hk', show a + (k + j) = a + j + k by omega]
    refine ⟨j, by omega, (hbyte 0 hpos).symm, ?_⟩
    refine (ece391_strncmpFrom_eq_zero (i := 0) fun k hk => ?_).mpr fun k hk => ?_
    · rw [Nat.zero_add]
      exact hchar k (hlen ▸ hk)
    · rw [Nat.zero_add]
      exact hbyte k (hlen ▸ hk)

/-! ## The end of a line -/

theorem scanFuel_le_add {p : UInt8 → Bool} {fuel i : ℕ} : scanFuel p s fuel i ≤ i + fuel := by
  induction fuel generalizing i with
  | zero => exact Nat.le_refl i
  | succ fuel ih =>
    rw [scanFuel]
    split_ifs
    · exact Nat.le_trans ih (by omega)
    · omega

/-- It stops in time only at a byte that fails the test. -/
theorem scanFuel_stopped {p : UInt8 → Bool} {fuel i : ℕ} (h : scanFuel p s fuel i < i + fuel) :
    p (s (scanFuel p s fuel i)) = false := by
  induction fuel generalizing i with
  | zero => exact absurd h (Nat.lt_irrefl i)
  | succ fuel ih =>
    rw [scanFuel] at h ⊢
    split_ifs at h ⊢ with hp
    · exact ih (by omega)
    · exact Bool.not_eq_true _ ▸ hp

theorem lineEnd_bounds (h : a ≤ last) : a ≤ lineEnd data last a ∧ lineEnd data last a ≤ last := by
  have hle : lineEnd data last a ≤ a + (last - a) := scanFuel_le_add
  exact ⟨le_scanFuel, by omega⟩

theorem newline_at_lineEnd (h : lineEnd data last a < last) :
    data (lineEnd data last a) = NEWLINE := by
  have hstart : a ≤ lineEnd data last a := le_scanFuel
  have hbefore : scanFuel (· != NEWLINE) data (last - a) a < a + (last - a) := by
    show lineEnd data last a < _
    omega
  have hstop := scanFuel_stopped hbefore
  exact bne_eq_false_iff_eq.mp hstop

theorem newline_notMem_line : NEWLINE ∉ segment data a (lineEnd data last a) := by
  intro hmem
  obtain ⟨j, hj, hlt, heq⟩ := mem_segment.mp hmem
  have hrun : (data j != NEWLINE) = true := scanFuel_run hj hlt
  simp [heq] at hrun

/-! ## Printing -/

variable {m : Machine} {p : Pid} {Alone : Prop} {v : View} {w : UserWorld} {α : Type}
  {Q : α → UserWorld → Prop}

theorem ensures_puts {t : List UInt8} {f : Unit → UserProg α} (h : Sees p Alone v w)
    (hscreen : ToScreen v.fd_table) (htext : text s = t) (hlt : t.length + 1 < 2 ^ 31)
    (hrest : ∀ w', Sees p Alone { v with printed := v.printed ++ t } w' →
      Ensures (platform m p Alone) Q (f ()) w') :
    Ensures (platform m p Alone) Q ((ece391_fdputs 1 s).bind f) w := by
  subst htext
  rw [text_length] at hlt
  exact ensures_fdputs h hscreen hlt hrest

/-- What a search prints of a line. -/
theorem ensures_printLine {name line : List UInt8} {f : Unit → UserProg α} (h : Sees p Alone v w)
    (hscreen : ToScreen v.fd_table) (hname : text fname = name) (hline : text s = line)
    (hshort : name.length ≤ BUFSIZE ∧ line.length ≤ BUFSIZE)
    (hrest : ∀ w', Sees p Alone
        { v with printed := v.printed ++ (name ++ (0x3a :: (line ++ [NEWLINE]))) } w' →
      Ensures (platform m p Alone) Q (f ()) w') :
    Ensures (platform m p Alone) Q ((printLine fname s).bind f) w := by
  unfold BUFSIZE at hshort
  have hcolon : text (message ":".toList) = [0x3a] := text_message (by decide) (by decide)
  have hnewline : text (message "\n".toList) = [NEWLINE] := text_message (by decide) (by decide)
  refine Ensures.bind ?_
  refine ensures_puts h hscreen hname (by omega) fun w₁ hw₁ => ?_
  refine ensures_puts hw₁ hscreen hcolon (by decide) fun w₂ hw₂ => ?_
  refine ensures_puts hw₂ hscreen hline (by omega) fun w₃ hw₃ => ?_
  show Ensures _ _ ((ece391_fdputs 1 (message "\n".toList)).bind Prog.ret) w₃
  refine ensures_puts hw₃ hscreen hnewline (by decide) fun w₄ hw₄ => .ret (hrest w₄ ?_)
  dsimp only at hw₄
  rw [List.append_assoc, List.append_assoc, List.append_assoc] at hw₄
  exact hw₄

end

/-! ## The inner loop -/

/-- `out` has been printed; the bytes of the array from `a` to `last` are not searched yet, and
`rest` is still in the file. -/
structure Searching (pattern name whole rest out : List UInt8) (data : Bytes) (a last : ℕ) :
    Prop where
  midway : Midway NEWLINE BUFSIZE (matchingLine pattern name) whole out
    (segment data a last ++ rest)
  clean : (0 : UInt8) ∉ segment data a last
  beyond : data BUFSIZE ≠ NEWLINE

/-- Nothing is left in the file when the array has not been filled. -/
structure Filled (cnt : ℤ) (last : ℕ) (rest : List UInt8) : Prop where
  last_le : last ≤ BUFSIZE
  room : last < BUFSIZE → rest = []
  read : cnt = 0 → last < BUFSIZE

section
variable {pattern name whole rest out : List UInt8} {cnt : ℤ} {last a e : ℕ} {data : Bytes}

/-- The beginning of a line moves to the front. -/
theorem Searching.cut (h : Searching pattern name whole rest out data a last) (ha : a ≠ 0)
    (hal : a ≤ last) (hlast : last ≤ BUFSIZE) (hne : data (lineEnd data last a) ≠ NEWLINE) :
    Searching pattern name whole rest out
      (ece391_strcpy (Function.update data (lineEnd data last a) 0) a) 0 (last - a) := by
  have hend : lineEnd data last a = last := by
    have hle : lineEnd data last a ≤ last := (lineEnd_bounds hal).2
    by_contra hlt
    exact hne (newline_at_lineEnd (by omega))
  rw [hend] at hne ⊢
  have hsame : segment (Function.update data last 0) a last = segment data a last :=
    segment_congr fun j _ hj => Function.update_of_ne (by omega) _ _
  have hclean : (0 : UInt8) ∉ segment (Function.update data last 0) a last := by
    rw [hsame]
    exact h.clean
  have hroom : BUFSIZE < addressSpace := by decide
  have hcopy := ece391_strcpy_apply (by omega) hal (by omega) hclean
    (Function.update_self last 0 data)
  have hfront : segment (ece391_strcpy (Function.update data last 0) a) 0 (last - a) =
      segment data a last := by
    rw [← hsame]
    apply List.ext_getElem
    · simp only [length_segment, Nat.sub_zero]
    · intro j hj hj'
      rw [length_segment] at hj
      rw [getElem_segment, getElem_segment, Nat.zero_add, hcopy, if_pos (by omega)]
  refine ⟨?_, ?_, ?_⟩
  · rw [hfront]
    exact h.midway
  · rw [hfront]
    exact h.clean
  · rw [hcopy, if_neg (by omega)]
    by_cases hfull : BUFSIZE = last
    · rw [hfull, Function.update_self]
      decide
    · rw [Function.update_of_ne hfull]
      exact h.beyond

/-- A line that is not cut ends where the search for its end stops. -/
theorem Searching.lineEnds (h : Searching pattern name whole rest out data a last)
    (hal : a ≤ last) (hfilled : Filled cnt last rest)
    (hkept : ¬ (data (lineEnd data last a) ≠ NEWLINE ∧ cnt ≠ 0 ∧ a ≠ 0)) :
    LineEnds NEWLINE (segment data (lineEnd data last a) last ++ rest) := by
  obtain ⟨hle, hle'⟩ : a ≤ lineEnd data last a ∧ lineEnd data last a ≤ last := lineEnd_bounds hal
  by_cases hlt : lineEnd data last a < last
  · rw [segment_eq_cons hlt, newline_at_lineEnd hlt]
    exact .inr ⟨_, List.cons_append⟩
  · have hend : lineEnd data last a = last := by omega
    have hline : NEWLINE ∉ segment data a last := by
      rw [← hend]
      exact newline_notMem_line
    rw [hend, segment_of_le (Nat.le_refl last), List.nil_append]
    by_cases hmore : rest = []
    · exact .inl hmore
    · -- the array is full, and its only line goes up to its end
      have hfull : last = BUFSIZE := by
        by_contra hne
        exact hmore (hfilled.room (lt_of_le_of_ne hfilled.last_le hne))
      have ha : a = 0 := by
        by_contra ha
        refine hkept ⟨?_, fun hcnt => ?_, ha⟩
        · rw [hend, hfull]
          exact h.beyond
        · exact hmore (hfilled.room (hfilled.read hcnt))
      refine h.midway.short.full hline ?_
      rw [length_segment, ha, hfull, Nat.sub_zero]

/-- The line has been searched. -/
theorem Searching.next (h : Searching pattern name whole rest out data a last)
    (hpattern : pattern ≠ []) (hal : a ≤ last) (hfilled : Filled cnt last rest)
    (hkept : ¬ (data (lineEnd data last a) ≠ NEWLINE ∧ cnt ≠ 0 ∧ a ≠ 0))
    (he : lineEnd data last a = e) :
    Searching pattern name whole rest
      (out ++ matchingLine pattern name (segment data a e)) (Function.update data e 0) (e + 1)
      last := by
  obtain ⟨hle, hle'⟩ : a ≤ lineEnd data last a ∧ lineEnd data last a ≤ last := lineEnd_bounds hal
  have hends := h.lineEnds hal hfilled hkept
  have hnil : matchingLine pattern name [] = [] := matchingLine_nil hpattern
  have hline : NEWLINE ∉ segment data a e := he ▸ newline_notMem_line
  have hnewline : e < last → data e = NEWLINE := he ▸ newline_at_lineEnd
  rw [he] at hle hle' hends
  have hmidway := h.midway
  rw [← segment_append hle hle', List.append_assoc] at hmidway
  have hnext := hmidway.next hnil hline hends
  have hsame : segment (Function.update data e 0) (e + 1) last = segment data (e + 1) last :=
    segment_congr fun j hj _ => Function.update_of_ne (by omega) _ _
  refine ⟨?_, ?_, ?_⟩
  · rw [hsame]
    by_cases hlt : e < last
    · rw [segment_eq_cons hlt, hnewline hlt] at hnext
      exact hnext.skip hnil
    · rw [segment_of_le (a := e) (by omega)] at hnext
      rw [segment_of_le (a := e + 1) (by omega)]
      exact hnext
  · rw [hsame]
    intro hmem
    obtain ⟨j, hj, hlt, h0⟩ := mem_segment.mp hmem
    exact h.clean (mem_segment.mpr ⟨j, by omega, hlt, h0⟩)
  · by_cases hfull : BUFSIZE = e
    · rw [hfull, Function.update_self]
      decide
    · rw [Function.update_of_ne hfull]
      exact h.beyond

/-- The array is searched. -/
theorem Searching.empty (h : Searching pattern name whole rest out data a last)
    (hle : last ≤ a) : Searching pattern name whole rest out data 0 0 := by
  obtain ⟨hmidway, hclean, hbeyond⟩ := h
  rw [segment_of_le hle] at hmidway hclean
  refine ⟨?_, ?_, hbeyond⟩
  · rw [segment_of_le (Nat.le_refl 0)]
    exact hmidway
  · rw [segment_of_le (Nat.le_refl 0)]
    exact hclean

variable {m : Machine} {p : Pid} {Alone : Prop} {v : View} {w : UserWorld} {s fname : Bytes}

/-- What a round of the inner loop leaves. -/
def AfterLine (p : Pid) (Alone : Prop) (v : View) (pattern name whole rest : List UInt8) (cnt : ℤ)
    (a last : ℕ) (o : (Bytes × ℕ) ⊕ (Bytes × ℕ)) (w : UserWorld) : Prop :=
  ∃ out, Sees p Alone { v with printed := out } w ∧
    (∀ x, o = .inl x →
      Searching pattern name whole rest out x.1 x.2 last ∧ a < x.2 ∧ x.2 < last) ∧
    ∀ r, o = .inr r → Searching pattern name whole rest out r.1 0 r.2 ∧ r.2 < BUFSIZE ∧
      (cnt = 0 → r.2 = 0)

/-- The end of a round: the next line, or the end of the array. -/
theorem ensures_lineNext (hae : a ≤ e) (hsees : Sees p Alone { v with printed := out } w)
    (h : Searching pattern name whole rest out data (e + 1) last) :
    Ensures (platform m p Alone) (AfterLine p Alone v pattern name whole rest cnt a last)
      (if e + 1 ≥ last then Prog.ret (.inr (data, 0)) else Prog.ret (.inl (data, e + 1))) w := by
  by_cases hdone : e + 1 ≥ last
  · rw [if_pos hdone]
    refine .ret ⟨out, hsees, fun x hx => ?_, fun r hr => ?_⟩
    · cases hx
    · cases hr
      exact ⟨h.empty hdone, Nat.succ_pos _, fun _ => rfl⟩
  · rw [if_neg hdone]
    refine .ret ⟨out, hsees, fun x hx => ?_, fun r hr => ?_⟩
    · cases hx
      exact ⟨h, Nat.lt_succ_of_le hae, Nat.lt_of_not_le hdone⟩
    · cases hr

theorem lineRound_prints (hpattern : text s ≠ [])
    (hname : text fname = name) (hshort : name.length ≤ BUFSIZE)
    (hscreen : ToScreen v.fd_table) (hal : a ≤ last) (hfilled : Filled cnt last rest)
    (hsees : Sees p Alone { v with printed := out } w)
    (h : Searching (text s) name whole rest out data a last) :
    Ensures (platform m p Alone) (AfterLine p Alone v (text s) name whole rest cnt a last)
      (lineRound s fname cnt last (data, a)) w := by
  obtain ⟨e, he⟩ : ∃ e, lineEnd data last a = e := ⟨_, rfl⟩
  obtain ⟨hle, hle'⟩ : a ≤ e ∧ e ≤ last := he ▸ lineEnd_bounds hal
  have hroom : BUFSIZE < addressSpace := by decide
  have hlast := hfilled.last_le
  unfold lineRound
  dsimp only
  by_cases hkept : data (lineEnd data last a) ≠ NEWLINE ∧ cnt ≠ 0 ∧ a ≠ 0
  · -- the line goes on in the file
    rw [if_pos hkept]
    refine .ret ⟨out, hsees, fun x hx => ?_, fun r hr => ?_⟩
    · cases hx
    · cases hr
      have ha := hkept.2.2
      exact ⟨h.cut ha hal hlast hkept.1, by dsimp only; omega, fun h0 => absurd h0 hkept.2.1⟩
  · rw [if_neg hkept, he]
    have hnext := h.next hpattern hal hfilled hkept he
    have hrest : ∀ w', Sees p Alone
        { v with printed := out ++ matchingLine (text s) name (segment data a e) } w' →
        Ensures (platform m p Alone) (AfterLine p Alone v (text s) name whole rest cnt a last)
          (if e + 1 ≥ last then Prog.ret (.inr (Function.update data e 0, 0))
            else Prog.ret (.inl (Function.update data e 0, e + 1))) w' :=
      fun w' hw' => ensures_lineNext hle hw' hnext
    have hsame : segment (Function.update data e 0) a e = segment data a e :=
      segment_congr fun j _ hj => Function.update_of_ne (by omega) _ _
    have hclean : (0 : UInt8) ∉ segment data a e := by
      intro hmem
      refine h.clean ?_
      rw [← segment_append hle hle']
      exact List.mem_append_left _ hmem
    have hmatches := lineMatches_iff (a := a) hpattern (Function.update_self e 0 data)
    rw [hsame] at hmatches
    unfold matchingLine at hrest
    by_cases hmatch : text s <:+: segment data a e
    · rw [if_pos (hmatches.mpr hmatch)]
      rw [if_pos hmatch] at hrest
      refine ensures_printLine hsees hscreen hname ?_ ⟨hshort, ?_⟩ hrest
      · rw [← hsame]
        refine text_from hle (by omega) ?_ (Function.update_self e 0 data)
        rw [hsame]
        exact hclean
      · rw [length_segment]
        omega
    · rw [if_neg fun hfound => hmatch (hmatches.mp hfound)]
      rw [if_neg hmatch, List.append_nil] at hrest
      exact hrest w hsees

/-- The array is searched, up to the beginning of a line that goes on in the file. -/
theorem lineLoop_prints (hpattern : text s ≠ []) (hname : text fname = name)
    (hshort : name.length ≤ BUFSIZE) (hscreen : ToScreen v.fd_table)
    (hfilled : Filled cnt last rest) (hsees : Sees p Alone { v with printed := out } w)
    (h : Searching (text s) name whole rest out data 0 last) :
    Ensures (platform m p Alone) (fun r w' => ∃ out', Sees p Alone { v with printed := out' } w' ∧
      Searching (text s) name whole rest out' r.1 0 r.2 ∧ r.2 < BUFSIZE ∧ (cnt = 0 → r.2 = 0))
      (Prog.repeatUntil (lineRound s fname cnt last) (data, 0)) w := by
  refine Ensures.loop_of
    (fun x w => ∃ out, Sees p Alone { v with printed := out } w ∧
      Searching (text s) name whole rest out x.1 x.2 last ∧ x.2 ≤ last)
    (fun x _ => last - x.2) ?_ ⟨out, hsees, h, Nat.zero_le last⟩
  rintro ⟨data, a⟩ w ⟨out, hsees, h, hal⟩
  refine (lineRound_prints hpattern hname hshort hscreen hal hfilled hsees h).mono ?_
  rintro o w' ⟨out', hsees', hgoes, hends⟩
  refine ⟨fun x hx => ?_, fun r hr => ?_⟩
  · obtain ⟨hnext, hlt, hlt'⟩ := hgoes x hx
    refine ⟨⟨out', hsees', hnext, Nat.le_of_lt hlt'⟩, ?_⟩
    dsimp only
    omega
  · exact .ret ⟨out', hsees', hends r hr⟩

end

/-! ## The outer loop -/

section
variable {pattern name whole out : List UInt8} {data : Bytes} {last i pos : ℕ} {fd : Fd}
  {m : Machine} {p : Pid} {Alone : Prop} {v : View} {w : UserWorld} {s fname : Bytes}

/-- What `read` stores behind what is there. -/
theorem segment_storeFrom (stored : List UInt8) :
    segment (storeFrom last stored data) 0 (last + stored.length) =
      segment data 0 last ++ stored := by
  apply List.ext_getElem
  · simp only [length_segment, List.length_append, Nat.sub_zero]
  · intro j hj hj'
    rw [length_segment] at hj
    rw [getElem_segment, Nat.zero_add, storeFrom]
    by_cases hlt : j < last
    · rw [if_neg (by omega), List.getElem_append_left (by rw [length_segment]; omega),
        getElem_segment, Nat.zero_add]
    · rw [if_pos (by omega), List.getElem_append_right (by rw [length_segment]; omega),
        List.getElem?_eq_getElem (by omega), Option.getD_some]
      simp only [length_segment, Nat.sub_zero]

/-- The array after a `read`. -/
theorem Searching.read {file got : List UInt8} (hclean : (0 : UInt8) ∉ file)
    (hlast : last < BUFSIZE)
    (h : Searching pattern name whole (file.drop pos) out data 0 last)
    (hgot : piece file pos (BUFSIZE - last) = got) :
    Searching pattern name whole (file.drop (pos + got.length)) out (storeFrom last got data) 0
      (last + got.length) := by
  have hlen := length_piece file pos (BUFSIZE - last)
  rw [hgot] at hlen
  have hfront : got <+: file.drop pos := hgot ▸ List.take_prefix _ _
  have hrest : got ++ file.drop (pos + got.length) = file.drop pos := by
    rw [← List.drop_drop]
    exact List.prefix_iff_eq_append.mp hfront
  refine ⟨?_, ?_, ?_⟩
  · rw [segment_storeFrom, List.append_assoc, hrest]
    exact h.midway
  · rw [segment_storeFrom, List.mem_append]
    refine not_or.mpr ⟨h.clean, fun hmem => hclean ?_⟩
    exact List.drop_subset _ _ (hfront.subset hmem)
  · rw [storeFrom, if_pos (Nat.le_of_lt hlast), List.getElem?_eq_none (by omega), Option.getD_none]
    exact h.beyond

theorem filled_read {file got : List UInt8} (hpos : pos ≤ file.length) (hlast : last < BUFSIZE)
    (hgot : piece file pos (BUFSIZE - last) = got) :
    Filled got.length (last + got.length) (file.drop (pos + got.length)) := by
  have hlen := length_piece file pos (BUFSIZE - last)
  rw [hgot] at hlen
  refine ⟨by omega, fun hroom => ?_, fun hnone => by omega⟩
  exact List.drop_eq_nil_of_le (by omega)

/-- The file has been searched up to `pos`, and the array holds the beginning of the next
line. -/
def FileSearched (p : Pid) (Alone : Prop) (v : View) (fd : Fd) (i : ℕ)
    (pattern name whole file : List UInt8) (pos : ℕ) (x : Bytes × ℕ) (w : UserWorld) : Prop :=
  ∃ out, Sees p Alone { v with
      fd_table := Function.update v.fd_table fd (fileDesc i pos), printed := out } w ∧
    Searching pattern name whole (file.drop pos) out x.1 0 x.2 ∧ x.2 < BUFSIZE

/-- One round: the next piece, or the end of the file. -/
theorem fileRound_prints {x : Bytes × ℕ} (hgood : GoodInode m.img i) (hi : i < m.img.num_inodes)
    (hfd : 2 ≤ fd.val) (hscreen : ToScreen v.fd_table) (hpos : pos ≤ m.img.length i)
    (hclean : (0 : UInt8) ∉ m.img.file i) (hpattern : text s ≠ []) (hname : text fname = name)
    (hshort : name.length ≤ BUFSIZE)
    (h : FileSearched p Alone v fd i (text s) name whole (m.img.file i) pos x w) :
    Ensures (platform m p Alone) (fun o w' =>
      (∀ x', o = .inl x' → ∃ pos', pos < pos' ∧ pos' ≤ m.img.length i ∧
        FileSearched p Alone v fd i (text s) name whole (m.img.file i) pos' x' w') ∧
      ∀ done, o = .inr done → done = true ∧ Sees p Alone { v with
        fd_table := Function.update v.fd_table fd (fileDesc i pos), printed := whole } w')
      (fileRound s fname fd.val x) w := by
  obtain ⟨out, hsees, hsearching, hlast⟩ := h
  obtain ⟨got, hgot⟩ : ∃ got, piece (m.img.file i) pos (BUFSIZE - x.2) = got := ⟨_, rfl⟩
  have hlen := length_piece (m.img.file i) pos (BUFSIZE - x.2)
  have hlength := m.img.length_file i
  have hcount : ((BUFSIZE : ℤ) - x.2).toNat = BUFSIZE - x.2 := by omega
  refine ensures_read_file hsees (Function.update_self ..) hgood hi hpos (by omega)
    (by unfold BUFSIZE; omega) fun w₁ hw₁ => ?_
  rw [Function.update_idem, hcount, hgot] at hw₁
  rw [hcount, hgot]
  rw [hgot] at hlen
  dsimp only
  rw [if_neg (by omega), Int.toNat_natCast]
  have hread := hsearching.read hclean hlast hgot
  have hfilled := filled_read (hlength ▸ hpos) hlast hgot
  refine Ensures.bind ((lineLoop_prints
    (v := { v with fd_table := Function.update v.fd_table fd (fileDesc i (pos + got.length)) })
    hpattern hname hshort ?_ hfilled hw₁ hread).mono ?_)
  · exact onScreen_update hscreen hfd
  · rintro r w₂ ⟨out', hw₂, hsearched, hroom, hzero⟩
    by_cases hend : (got.length : ℤ) = 0
    · rw [if_pos hend]
      -- nothing is left, neither in the file nor in the array
      have hnone : got.length = 0 := by omega
      have hmidway := hsearched.midway
      rw [hzero hend, hfilled.room (by omega), segment_of_le (Nat.le_refl 0),
        List.nil_append] at hmidway
      have hout := hmidway.done (matchingLine_nil hpattern)
      rw [hout, hnone, Nat.add_zero] at hw₂
      refine .ret ⟨fun x' hx => ?_, fun done hdone => ?_⟩
      · cases hx
      · cases hdone
        exact ⟨rfl, hw₂⟩
    · rw [if_neg hend]
      refine .ret ⟨fun x' hx => ?_, fun done hdone => ?_⟩
      · cases hx
        exact ⟨pos + got.length, by omega, by omega, out', hw₂, hsearched, hroom⟩
      · cases hdone

/-- The whole file is searched. -/
theorem fileLoop_prints (hgood : GoodInode m.img i) (hi : i < m.img.num_inodes) (hfd : 2 ≤ fd.val)
    (hscreen : ToScreen v.fd_table) (hclean : (0 : UInt8) ∉ m.img.file i) (hpattern : text s ≠ [])
    (hname : text fname = name) (hshort : name.length ≤ BUFSIZE)
    (hlines : LinesAtMost NEWLINE BUFSIZE (m.img.file i)) (hbeyond : data BUFSIZE ≠ NEWLINE)
    (h : Sees p Alone { v with fd_table := Function.update v.fd_table fd (fileDesc i 0) } w) :
    Ensures (platform m p Alone) (fun done w' => done = true ∧ ∃ pos, Sees p Alone { v with
        fd_table := Function.update v.fd_table fd (fileDesc i pos)
        printed := v.printed ++ matchingLines (text s) name (m.img.file i) } w')
      (Prog.repeatUntil (fileRound s fname fd.val) (data, 0)) w := by
  refine Ensures.loop_of
    (fun x w => ∃ pos ≤ m.img.length i, FileSearched p Alone v fd i (text s) name
      (v.printed ++ matchingLines (text s) name (m.img.file i)) (m.img.file i) pos x w)
    (fun _ w => m.img.length i - ((w.kernel.pcb p).fd_table fd).file_position) ?_
    ⟨0, Nat.zero_le _, v.printed, h, ?_, Nat.succ_pos _⟩
  · rintro x w ⟨pos, hpos, hat⟩
    refine (fileRound_prints hgood hi hfd hscreen hpos hclean hpattern hname hshort hat).mono
      fun o w' ho => ⟨fun x' hx => ?_, fun done hdone => ?_⟩
    · obtain ⟨pos', hlt, hpos', hat'⟩ := ho.1 x' hx
      refine ⟨⟨pos', hpos', hat'⟩, ?_⟩
      obtain ⟨out, hsees, -⟩ := hat
      obtain ⟨out', hsees', -⟩ := hat'
      rw [hsees.fd_table, hsees'.fd_table]
      dsimp only
      rw [Function.update_self, Function.update_self]
      dsimp only [fileDesc]
      omega
    · obtain ⟨hdone, hsees⟩ := ho.2 done hdone
      exact .ret ⟨hdone, pos, hsees⟩
  · rw [List.drop_zero]
    refine ⟨⟨rfl, ?_⟩, ?_, hbeyond⟩
    · exact hlines
    · rw [segment_of_le (Nat.le_refl 0)]
      exact List.not_mem_nil

end

/-! ## Every run of `do_one_file` -/

section
variable {m : Machine} {p : Pid} {v : View} {w : UserWorld} {s fname data : Bytes} {i : ℕ} {fd : Fd}

/-- A file that cannot be opened. -/
theorem do_one_file_fails (hsees : Sees p False v w) (hscreen : ToScreen v.fd_table)
    (hname : ¬ ConsoleName fname)
    (hnone : (∀ fs, read_dentry_by_name m.img fname fs = none) ∨ AllUsed v.fd_table) :
    Ensures (platform m p False) (fun r w' => r = -1 ∧
        w'.printed = v.printed ++ messageBytes "file open failed\n".toList ∧
        SameFlags p v.fd_table w') (do_one_file s fname data) w := by
  have htext : text (message "file open failed\n".toList) =
      messageBytes "file open failed\n".toList := text_message (by decide) (by decide)
  refine ensures_open_fails hsees hname hnone fun w₁ hw₁ => ?_
  rw [if_pos (show (-1 : ℤ) = -1 from rfl)]
  refine ensures_puts hw₁ hscreen htext (by decide) fun w₂ hw₂ => .ret ⟨rfl, hw₂.printed, ?_⟩
  intro fd
  rw [hw₂.fd_table]

/-- A text file. -/
theorem do_one_file_prints (hnamed : NamedImage m.img) (himg : GoodImage m.img)
    (hsees : Sees p False v w) (hscreen : ToScreen v.fd_table) (hi : i < m.img.num_dir_entries)
    (hholds : HoldsBytes fname (m.img.name i)) (hname : text fname = m.img.name i)
    (hres : NotReserved (m.img.name i)) (htype : m.img.file_type i = 2)
    (hfirst : FirstFree v.fd_table fd) (hpattern : text s ≠ [])
    (hclean : (0 : UInt8) ∉ m.img.file (m.img.inode i))
    (hlines : LinesAtMost NEWLINE BUFSIZE (m.img.file (m.img.inode i)))
    (hbeyond : data BUFSIZE ≠ NEWLINE) :
    Ensures (platform m p False) (fun r w' => r = 0 ∧
        w'.printed = v.printed ++
          matchingLines (text s) (m.img.name i) (m.img.file (m.img.inode i)) ∧
        SameFlags p v.fd_table w') (do_one_file s fname data) w := by
  have hinode := himg.entries i hi htype
  have hfd := hfirst.1
  have hshort : (m.img.name i).length ≤ BUFSIZE :=
    Nat.le_trans (length_name_le m.img i) (by decide)
  refine ensures_open_regular hnamed hsees hi htype hholds hres hfirst fun w₁ hw₁ => ?_
  dsimp only
  rw [if_neg (by omega)]
  refine Ensures.bind ((fileLoop_prints (himg.inodes _ hinode) hinode hfd hscreen hclean hpattern
    hname hshort hlines hbeyond hw₁).mono ?_)
  rintro done w₂ ⟨rfl, pos, hw₂⟩
  rw [if_pos rfl]
  refine ensures_close hw₂ hfd ?_ ?_ fun w₃ hw₃ => ?_
  · dsimp only
    rw [Function.update_self]
    rfl
  · dsimp only
    rw [Function.update_self]
    rfl
  · dsimp only
    rw [if_neg (by decide)]
    refine .ret ⟨rfl, hw₃.printed, fun fd' => ?_⟩
    rw [hw₃.fd_table]
    dsimp only
    by_cases heq : fd' = fd
    · rw [heq, Function.update_self, hfirst.2.1]
    · rw [Function.update_of_ne heq, Function.update_of_ne heq]

end

/-- The image with a text behind the magic number of the shell. -/
def wordsImage : Image := fun a =>
  if 8196 ≤ a ∧ a < 8220 then ("\na word\nno\nthese words..".toList.getD (a - 8196) 'x').toUInt8
  else sampleImage a

def wordsMachine : Machine :=
  imageMachine wordsImage (holdsExecutable_shell (i := 0) (by decide +kernel) (by decide +kernel)
    (by decide +kernel) (by decide +kernel))

theorem wordsImage_good : GoodImage wordsImage := by
  constructor
  · intro inode hinode
    have h0 : inode = 0 := by
      have hone : wordsImage.num_inodes = 1 := by decide +kernel
      omega
    rw [h0]
    exact ⟨by decide +kernel, by decide +kernel⟩
  · decide +kernel

end Kernel391
