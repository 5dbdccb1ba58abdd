import Kernel391.Conversations
import Kernel391.NumberFormats

/-!
# The counter (`ece391counter.c`)

The program asks how far to count, reads a line and prints the numbers up to there, one on each
line. It has its own copies of `itoa` and `strrev`; the buffer for the numbers is the one the
line has been read into.

Its user sees one of the dialogs `dialog line`, at every moment as far as the run has come
(`counter_counts`). Between its calls others do only what `Spares` allows: no Ctrl+C while the
counter runs on a terminal that is not on display, no `execute` from such a terminal, and nobody
on the kernel stack of another.
-/

namespace Kernel391

open Programs TransitionSystem

/-! ## The program -/

/-- Unlike that of the kernel it looks for short strings first. -/
def ece391_strrev (size : ℕ) (buf : Bytes) (s : ℕ) : Option Bytes := do
  let len ← strlenIn size buf s
  if (len : ℤ) - 1 ≤ 0 then some buf
  else strrevFrom size s len buf 0 (len - 1)

/-- `ece391_itoa(value, &buf[s], radix)` in a buffer. -/
def ece391_itoa (size : ℕ) (value : UInt32) (buf : Bytes) (s : ℕ) (radix : ℕ) : Option Bytes :=
  if value = 0 then do
    let buf ← storeIn size buf s '0'.toUInt8
    storeIn size buf (s + 1) 0
  else do
    let (buf, newbuf) ← itoaFrom size radix 32 value.toNat buf s
    let buf ← storeIn size buf newbuf 0
    ece391_strrev size buf s

/-- Two characters at most, and the first of two a digit of the menu. -/
def WrongChoice (buf : Bytes) : Prop :=
  2 < ece391_strlen buf ∨
    ece391_strlen buf = 2 ∧ (buf 0 < '0'.toUInt8 ∨ '2'.toUInt8 < buf 0)

instance (buf : Bytes) : Decidable (WrongChoice buf) := by
  unfold WrongChoice
  infer_instance

/-- The `switch`, over the initial 0. -/
def countTo (c : UInt8) : ℕ :=
  if c = '0'.toUInt8 then 100
  else if c = '1'.toUInt8 then 10000
  else if c = '2'.toUInt8 then 100000
  else 0

/-- The loop, with the array and `i`. A fault in `ece391_itoa` leaves it. -/
def countRound (max : ℕ) (x : Bytes × ℕ) : UserProg ((Bytes × ℕ) ⊕ Option ℤ) :=
  if x.2 < max then
    match ece391_itoa 1024 (UInt32.ofNat (x.2 + 1)) x.1 0 10 with
    | none => return .inr none
    | some buf => do
      ece391_fdputs 1 buf
      ece391_fdputs 1 (message "\n".toList)
      return .inl (buf, x.2 + 1)
  else return .inr (some 0)

/-- The program from the result of its `read` on. -/
def afterChoice (buf : Bytes) (cnt : ReadResult) : UserProg (Option ℤ) :=
  let buf := overwrite buf cnt.stored
  if cnt.ret = -1 then do
    ece391_fdputs 1 (message "Can't read the number from keyboard.\n".toList)
    return some 3
  else
    let buf := Function.update buf cnt.ret.toNat 0
    if WrongChoice buf then do
      ece391_fdputs 1 (message "Wrong Choice!\n".toList)
      return some 0
    else Prog.repeatUntil (countRound (countTo (buf 0))) (buf, 0)

def question : List Char := "Enter the Test Number: (0): 100, (1): 10000, (2): 100000\n".toList

/-- `main` of `ece391counter.c`; `buf` is the array as it lies on the stack. -/
def counter (buf : Bytes) : UserProg (Option ℤ) := do
  ece391_fdputs 1 (message question)
  let cnt ← ece391_read 0 1023
  afterChoice buf cnt

/-! ## Numbers -/

section
variable {size s radix : ℕ}

/-- The strings that `ece391_strrev` does not reverse are their own reverse. -/
theorem ece391_strrev_eq (buf : Bytes) : ece391_strrev size buf s = strrev size buf s := by
  unfold ece391_strrev strrev
  cases strlenIn size buf s with
  | none => rfl
  | some len =>
    simp only [Option.bind_eq_bind, Option.bind_some]
    by_cases hshort : (len : ℤ) - 1 ≤ 0
    · rw [if_pos hshort]
      cases len with
      | zero =>
        rw [strrevFrom, if_neg (by omega)]
      | succ len =>
        rw [strrevFrom, if_neg (by omega)]
    · rw [if_neg hshort]

theorem ece391_itoa_eq {value : UInt32} (buf : Bytes) :
    ece391_itoa size value buf s radix = itoa size value buf s radix := by
  unfold ece391_itoa itoa
  simp only [ece391_strrev_eq]

/-- What stands in the buffer then. -/
theorem ece391_itoa_holds (value : UInt32) (buf : Bytes) : ∃ buf',
    ece391_itoa 1024 value buf 0 10 = some buf' ∧ text buf' = numeral 10 value.toNat ∧
      strlen buf' ≤ 32 := by
  have hlen : (numeral 10 value.toNat).length ≤ 32 :=
    numeral_length_le (by omega) (by omega) (toNat_lt_radix_pow value (by omega))
  refine ⟨_, (ece391_itoa_eq buf).trans (itoa_eq buf (by omega) (by omega) (by omega)), ?_⟩
  generalize hword : numeral 10 value.toNat = word at hlen
  have hget (j : ℕ) (c : UInt8) (h : (word ++ [0])[j]? = some c) :
      splice buf 0 (word ++ [0]) j = c := by
    have hsplice := splice_get buf 0 h
    rwa [Nat.zero_add] at hsplice
  have hholds : HoldsBytes (splice buf 0 (word ++ [0])) word := by
    refine ⟨fun j hj => hget j _ ?_, hget _ _ ?_⟩
    · rw [List.getElem?_append_left hj, List.getElem?_eq_getElem hj]
    · rw [List.getElem?_append_right (Nat.le_refl _), Nat.sub_self]
      rfl
  have htext : text (splice buf 0 (word ++ [0])) = word := by
    refine hholds.text_eq (fun b hb => ?_) (by unfold addressSpace; omega)
    exact numeral_ne_zero (by omega) (by omega) _ b (hword ▸ hb)
  refine ⟨htext, ?_⟩
  rw [← text_length, htext]
  exact hlen

end

/-! ## Dialogs -/

/-- The numbers from 1 to `n`, as they are printed. -/
def counted (n : ℕ) : List UserEvent :=
  (List.range n).flatMap fun i =>
    [.puts (numeral 10 (i + 1)), .puts (messageBytes "\n".toList)]

/-- The answer to a choice. -/
def answerTo (choice : List UInt8) : List UserEvent :=
  if 2 < choice.length ∨
      choice.length = 2 ∧ (choice.headD 0 < '0'.toUInt8 ∨ '2'.toUInt8 < choice.headD 0) then
    [.puts (messageBytes "Wrong Choice!\n".toList)]
  else counted (countTo (choice.headD 0))

/-- The choice is what stands in the line before the first NUL. -/
def dialog (line : List UInt8) : List UserEvent :=
  [.puts (messageBytes question), .line line] ++ answerTo (line.takeWhile (· ≠ 0))

/-- At any moment: the program has come some way through a dialog, and has printed what it says. -/
structure InDialog (printed : List UInt8) (s : RecordedWorld) : Prop where
  some_way : ∃ line, s.events <+: dialog line
  printed : s.1.printed = printed ++ s.events.flatMap UserEvent.shown

/-- At the end: the dialog is complete, and there has been no fault. -/
structure DialogEnds (code : Option ℤ) (s : RecordedWorld) : Prop where
  code : code = some 0
  whole : ∃ line, s.events = dialog line

theorem counted_succ (n : ℕ) : counted (n + 1) =
    counted n ++ [.puts (numeral 10 (n + 1)), .puts (messageBytes "\n".toList)] := by
  unfold counted
  rw [List.range_succ, List.flatMap_append, List.flatMap_singleton]

theorem counted_le {n max : ℕ} (h : n ≤ max) : counted n <+: counted max := by
  induction max, h using Nat.le_induction with
  | base => exact List.prefix_rfl
  | succ max _ ih =>
    rw [counted_succ]
    exact ih.trans (List.prefix_append _ _)

theorem countTo_le (c : UInt8) : countTo c ≤ 100000 := by
  unfold countTo
  split_ifs
  · decide
  · decide
  · decide
  · decide

/-- A dialog up to its answer. -/
def asked (line : List UInt8) : List UserEvent := [.puts (messageBytes question), .line line]

section
variable {m : Machine} {p : Pid} {v : View} {s : RecordedWorld} {es : List UserEvent}
  {line : List UInt8} {max : ℕ}

theorem AtPoint.inDialog (h : AtPoint False p v es s) (line : List UInt8)
    (hway : es <+: dialog line) : InDialog v.printed s := by
  refine ⟨⟨line, ?_⟩, ?_⟩
  · rw [h.events]
    exact hway
  · rw [h.events]
    exact h.sees.printed

/-! ## The run -/

/-- `i` numbers have been printed. -/
def Counting (p : Pid) (v : View) (line : List UInt8) (max : ℕ) (x : Bytes × ℕ)
    (s : RecordedWorld) : Prop :=
  x.2 ≤ max ∧ AtPoint False p v (asked line ++ counted x.2) s

/-- One round: a number more, or the end. -/
theorem countRound_safe (hscreen : ToScreen v.fd_table) (hmax : max ≤ 100000)
    (hdialog : dialog line = asked line ++ counted max) (x : Bytes × ℕ)
    (h : Counting p v line max x s) :
    Safe (platform m p False).recorded (InDialog v.printed)
      (AfterRound (platform m p False).recorded (InDialog v.printed) DialogEnds
        (Counting p v line max) .ret) (countRound max x) s := by
  obtain ⟨buf, i⟩ := x
  obtain ⟨hle, hat⟩ := h
  have hway {es : List UserEvent} (hes : es <+: counted max) :
      asked line ++ es <+: dialog line := by
    rw [hdialog]
    exact (List.prefix_append_right_inj _).mpr hes
  have hhere : InDialog v.printed s := hat.inDialog line (hway (counted_le hle))
  unfold countRound
  dsimp only
  by_cases hlt : i < max
  · -- the next number
    have hvalue : (UInt32.ofNat (i + 1)).toNat = i + 1 := UInt32.toNat_ofNat_of_lt' (by
      show i + 1 < 2 ^ 32
      omega)
    obtain ⟨buf', hitoa, htext, hstrlen⟩ := ece391_itoa_holds (UInt32.ofNat (i + 1)) buf
    have hsucc := counted_le hlt
    rw [counted_succ] at hsucc
    rw [if_pos hlt, hitoa]
    refine safe_puts hat hscreen (by omega) hhere fun s₁ hs₁ => ?_
    rw [htext, hvalue, List.append_assoc] at hs₁
    have hmoment : InDialog v.printed s₁ := by
      refine hs₁.inDialog line (hway (List.IsPrefix.trans ?_ hsucc))
      exact (List.prefix_append_right_inj _).mpr ⟨_, rfl⟩
    refine safe_fdputs hs₁ hscreen (by decide) (by decide) hmoment fun s₂ hs₂ => ?_
    have hnext : Counting p v line max (buf', i + 1) s₂ := by
      refine ⟨hlt, ?_⟩
      rw [List.append_assoc, List.append_assoc] at hs₂
      rw [counted_succ]
      exact hs₂
    exact .ret (hnext.2.inDialog line (hway (counted_le hlt))) hnext
  · -- all of them have been printed
    obtain rfl : i = max := by omega
    rw [if_neg hlt]
    refine .ret hhere (.ret hhere ⟨rfl, line, ?_⟩)
    rw [hat.events, hdialog]

/-- The first byte of a string. -/
theorem headD_text {buf : Bytes} (h : Terminated buf) : (text buf).headD 0 = buf 0 := by
  cases htext : text buf with
  | nil =>
    rw [(first_eq_zero_iff h).mpr htext]
    rfl
  | cons c rest =>
    have hpos : 0 < (text buf).length := by rw [htext, List.length_cons]; omega
    rw [← text_getElem hpos]
    simp only [htext, List.headD_cons, List.getElem_cons_zero]

/-- The program after its line: it refuses the choice, or counts. -/
theorem afterChoice_safe (hscreen : ToScreen v.fd_table) (buf : Bytes)
    (hlen : line.length ≤ 1023) (h : AtPoint False p v (asked line) s) :
    Safe (platform m p False).recorded (InDialog v.printed) DialogEnds
      (afterChoice buf { ret := line.length, stored := line }) s := by
  obtain ⟨hterminated, htext⟩ := text_overwrite_cut buf (Nat.le_refl line.length)
    (by unfold addressSpace; omega)
  rw [List.take_length] at htext
  have hhere : InDialog v.printed s := h.inDialog line ⟨_, rfl⟩
  unfold afterChoice
  dsimp only
  rw [if_neg (show ¬ ((line.length : ℤ) = -1) by omega), Int.toNat_natCast]
  generalize Function.update (overwrite buf line) line.length 0 = buf at hterminated htext
  have hfirst : (line.takeWhile (· ≠ 0)).headD 0 = buf 0 := by
    rw [← htext]
    exact headD_text hterminated
  have hlength : (line.takeWhile (· ≠ 0)).length = ece391_strlen buf := by
    rw [← htext]
    exact text_length
  have hanswer : dialog line = asked line ++
      if WrongChoice buf then [.puts (messageBytes "Wrong Choice!\n".toList)]
      else counted (countTo (buf 0)) := by
    unfold dialog answerTo WrongChoice asked
    rw [hfirst, hlength]
  by_cases hwrong : WrongChoice buf
  · rw [if_pos hwrong] at hanswer ⊢
    refine safe_fdputs h hscreen (by decide) (by decide) hhere fun s₁ hs₁ => ?_
    rw [← hanswer] at hs₁
    exact .ret (hs₁.inDialog line List.prefix_rfl) ⟨rfl, line, hs₁.events⟩
  · rw [if_neg hwrong] at hanswer ⊢
    refine Safe.loop_of (Counting p v line (countTo (buf 0))) (fun x s hx => ?_) ?_
    · exact countRound_safe hscreen (countTo_le _) hanswer x hx
    · exact ⟨Nat.zero_le _, h⟩

theorem counter_safe (hconsole : OnConsole v.fd_table) (buf : Bytes)
    (h : AtPoint False p v [] s) :
    Safe (platform m p False).recorded (InDialog v.printed) DialogEnds (counter buf) s := by
  refine safe_fdputs h hconsole.screen (by decide +kernel) (by decide +kernel) ?_ fun s₁ hs₁ => ?_
  · exact h.inDialog [] List.nil_prefix
  refine safe_read_line hs₁ hconsole.keyboard ?_ fun line s₂ hlen hs₂ => ?_
  · exact hs₁.inDialog [] ⟨_, rfl⟩
  · exact afterChoice_safe hconsole.screen buf hlen hs₂

end

/-- At every moment of every run of the counter that nothing disturbs, its calls are the beginning
of a dialog: it asks, reads a line and prints the numbers from 1 to 100, 10000 or 100000 for a
line that begins with `0`, `1` or `2` and has at most one more character, with the words for a
wrong choice or nothing for other lines. It has printed just that. It ends when the dialog is
complete, returns 0, and never stores outside its array. -/
theorem counter_counts {m : Machine} {k : Kernel} (h : ReachableWhere m (KeepsStacks m) k)
    (buf : Bytes) {c : UserProg (Option ℤ) × RecordedWorld}
    (hruns : Runs (platform m k.cur_pid False).recorded
      (counter buf, ({ kernel := k, printed := [] }, [])) c) :
    InDialog [] c.2 ∧ ∀ code, c.1 = .ret code → DialogEnds code c.2 := by
  obtain ⟨hstart, hconsole⟩ := atPoint_first h fun hfalse : False => hfalse.elim
  exact counter_safe hconsole buf hstart c hruns

/-- The first process asks, reads a choice that is not on the menu, and says so. -/
theorem counter_counts_wrong : ∃ s : RecordedWorld,
    Runs (platform sampleMachine sampleKernel.cur_pid False).recorded
      (counter fun _ => 0, ({ kernel := sampleKernel, printed := [] }, [])) (.ret (some 0), s) ∧
    InDialog [] s ∧ DialogEnds (some 0) s := by
  have hreach : ReachableWhere sampleMachine (KeepsStacks sampleMachine) sampleKernel :=
    System.ReachableWhere.init ⟨sampleMemory, trivial, sampleKernel_started⟩
  obtain ⟨-, hconsole⟩ := atPoint_first hreach fun hfalse : False => hfalse.elim
  let w₀ : UserWorld := { kernel := sampleKernel, printed := [] }
  have hscreen₀ : ToScreen (w₀.kernel.pcb w₀.kernel.cur_pid).fd_table := hconsole.screen
  obtain ⟨w₁, log₁, hask, hcur₁, hpcb₁⟩ := step_fdputs sampleMachine [] (message question)
    (fun _ => (ece391_read 0 1023).bind (afterChoice fun _ => 0)) hscreen₀ (by decide +kernel)
  have hkeyboard : ((w₁.kernel.pcb w₁.kernel.cur_pid).fd_table 0).flags = true ∧
      ((w₁.kernel.pcb w₁.kernel.cur_pid).fd_table 0).op_table_ptr = .stdin := by
    rw [hcur₁, hpcb₁]
    exact hconsole.keyboard
  obtain ⟨w₂, log₂, hread, hcur₂, hpcb₂⟩ := step_read sampleMachine log₁ "9\n".toList
    (afterChoice fun _ => 0) hkeyboard (by decide)
  have hscreen₂ : ToScreen (w₂.kernel.pcb w₂.kernel.cur_pid).fd_table := by
    rw [hcur₂, hpcb₂, hcur₁, hpcb₁]
    exact hconsole.screen
  obtain ⟨w₃, log₃, hwrong, -⟩ := step_fdputs sampleMachine log₂
    (message "Wrong Choice!\n".toList) (fun _ => .ret (some (0 : ℤ))) hscreen₂ (by decide +kernel)
  have hchoice : afterChoice (fun _ => 0) { ret := 2, stored := messageBytes "9\n".toList } =
      (ece391_fdputs 1 (message "Wrong Choice!\n".toList)).bind fun _ => .ret (some 0) := by
    unfold afterChoice
    dsimp only
    rw [if_neg (by decide), if_pos (by decide +kernel)]
    rfl
  replace hread := hchoice ▸ hread
  rw [hcur₂, hcur₁] at hwrong
  rw [hcur₁] at hread
  have hruns : Runs (platform sampleMachine sampleKernel.cur_pid False).recorded
      (counter fun _ => 0, ({ kernel := sampleKernel, printed := [] }, []))
      (.ret (some 0), (w₃, log₃)) := .head hask (.head hread (.single hwrong))
  obtain ⟨hin, hends⟩ := counter_counts hreach (fun _ => 0) hruns
  exact ⟨_, hruns, hin, hends _ rfl⟩

end Kernel391
