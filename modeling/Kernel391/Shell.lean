import Kernel391.Conversations

/-!
# The shell (`ece391shell.c`)

The shell prompts, reads a line, has it executed and says how that went, until the line is
`exit`. It never looks at time or at other programs, and may wait for ever: for a line, or for
the program it has started.

What a user sees of it is a sequence of `Exchange`s. At every moment of every run the calls the
shell has made are the beginning of such a sequence, and what it has printed is what they say
(`shell_session`). Left out of the runs is what `Spares` leaves out: Ctrl+C while the shell runs
on a terminal that is not on display, which closes its own files, an `execute` from such a
terminal, and processes that enter the kernel on a stack not their own. While the shell waits for
its program only the last is left out.
-/

namespace Kernel391

open Programs TransitionSystem Words

/-! ## The program -/

def ece391_strcmpFrom (s1 s2 : Bytes) : ℕ → ℕ → ℤ
  | 0, _ => 0
  | n + 1, i =>
    if s1 i = s2 i then
      if s1 i = 0 then 0 else ece391_strcmpFrom s1 s2 n (i + 1)
    else (s1 i).toNat - (s2 i).toNat

def ece391_strcmp (s1 s2 : Bytes) : ℤ := ece391_strcmpFrom s1 s2 addressSpace 0

/-- The array once `cnt` bytes of a line have been read into it: a NUL takes the place of the
newline, or stands behind a line without one. -/
def cutLine (buf : Bytes) (cnt : ℤ) : Bytes :=
  let cnt := if 0 < cnt ∧ buf (cnt - 1).toNat = NEWLINE then cnt - 1 else cnt
  Function.update buf cnt.toNat 0

/-- What the shell says to the result of `execute`. -/
def reportResult (rval : ℤ) : UserProg Unit :=
  if rval = -1 then ece391_fdputs 1 (message "no such command\n".toList)
  else if rval = 256 then ece391_fdputs 1 (message "program terminated by exception\n".toList)
  else if rval ≠ 0 then ece391_fdputs 1 (message "program terminated abnormally\n".toList)
  else return ()

/-- The round of the loop from its `read` on. -/
def afterRead (buf : Bytes) (cnt : ReadResult) : UserProg (Bytes ⊕ ℤ) :=
  let buf := overwrite buf cnt.stored
  if cnt.ret = -1 then do
    ece391_fdputs 1 (message "read from keyboard failed\n".toList)
    return .inr 3
  else
    let buf := cutLine buf cnt.ret
    if ece391_strcmp buf (message "exit".toList) = 0 then return .inr 0
    else if buf 0 = 0 then return .inl buf
    else do
      let rval ← ece391_execute buf
      reportResult rval.ret
      return .inl buf

/-- The loop, with the array. -/
def shellRound (buf : Bytes) : UserProg (Bytes ⊕ ℤ) := do
  ece391_fdputs 1 (message "391OS> ".toList)
  let cnt ← ece391_read 0 1023
  afterRead buf cnt

/-- `main` of `ece391shell.c`; `buf` is the array as it lies on the stack. -/
def shell (buf : Bytes) : UserProg ℤ := do
  ece391_fdputs 1 (message "Starting 391 Shell\n".toList)
  Prog.repeatUntil shellRound buf

/-! ## Strings -/

section
variable {s1 s2 : Bytes}

theorem ece391_strcmpFrom_eq_zero_iff (s1 s2 : Bytes) (n i : ℕ) :
    ece391_strcmpFrom s1 s2 n i = 0 ↔ ∀ j, i ≤ j → j < i + n →
      (∀ l, i ≤ l → l < j → s1 l ≠ 0) → s1 j = s2 j := by
  induction n generalizing i with
  | zero =>
    rw [ece391_strcmpFrom]
    exact iff_of_true rfl fun j hij hj => by omega
  | succ n ih =>
    rw [ece391_strcmpFrom]
    by_cases heq : s1 i = s2 i
    · rw [if_pos heq]
      by_cases hzero : s1 i = 0
      · -- the strings end here
        rw [if_pos hzero]
        refine iff_of_true rfl fun j hij _ hrun => ?_
        rcases Nat.eq_or_lt_of_le hij with rfl | hlt
        · exact heq
        · exact absurd hzero (hrun i (Nat.le_refl i) hlt)
      · rw [if_neg hzero, ih]
        constructor
        · intro h j hij hj hrun
          rcases Nat.eq_or_lt_of_le hij with rfl | hlt
          · exact heq
          · exact h j hlt (by omega) fun l hl => hrun l (by omega)
        · intro h j hij hj hrun
          refine h j (by omega) (by omega) fun l hl hlj => ?_
          rcases Nat.eq_or_lt_of_le hl with rfl | hlt
          · exact hzero
          · exact hrun l hlt hlj
    · rw [if_neg heq]
      refine iff_of_false (fun hsub => heq ?_) fun h => heq ?_
      · exact UInt8.toNat.inj (by omega)
      · exact h i (Nat.le_refl i) (by omega) fun l hl hli => by omega

theorem ece391_strcmp_eq_zero_iff (h1 : Terminated s1) (h2 : Terminated s2) :
    ece391_strcmp s1 s2 = 0 ↔ text s1 = text s2 := by
  have hlt := h1.strlen_lt
  unfold ece391_strcmp
  rw [ece391_strcmpFrom_eq_zero_iff]
  constructor
  · intro h
    refine (text_congr h1 fun j hj => ?_).symm
    refine h j (Nat.zero_le j) (by omega) fun l _ hl => ?_
    exact ne_zero_of_lt_strlen (by omega)
  · intro heq j _ _ hrun
    have hlen : strlen s1 = strlen s2 := by rw [← text_length, heq, text_length]
    have hj : j ≤ strlen s1 := by
      by_contra hgt
      exact hrun (strlen s1) (Nat.zero_le _) (by omega) h1.nul
    rcases Nat.eq_or_lt_of_le hj with rfl | hj
    · rw [h1.nul, hlen, h2.nul]
    · have hj1 : j < (text s1).length := by rwa [text_length]
      have hj2 : j < (text s2).length := by rw [text_length, ← hlen]; exact hj
      rw [← text_getElem hj1, ← text_getElem hj2]
      simp only [heq]

end

/-! ## Sessions -/

/-- The command in a line: what stands before its newline, and before the first NUL. -/
def commandOf (line : List UInt8) : List UInt8 :=
  (if line.getLast? = some NEWLINE then line.dropLast else line).takeWhile (· ≠ 0)

/-- `exit` -/
def exitWord : List UInt8 := messageBytes "exit".toList

/-- What the shell says when a command has ended so. -/
def Completion.report : Completion → List UserEvent
  | .refused => [.puts (messageBytes "no such command\n".toList)]
  | .full => [.puts (messageBytes "program terminated abnormally\n".toList)]
  | .status code =>
    if code = 0 then [] else [.puts (messageBytes "program terminated abnormally\n".toList)]

/-- A line, and how its command ended if it had one. -/
structure Exchange where
  line : List UInt8
  completion : Completion

def Exchange.runs (x : Exchange) : List UserEvent :=
  if commandOf x.line = [] ∨ commandOf x.line = exitWord then []
  else .runs (commandOf x.line) x.completion.value :: x.completion.report

def Exchange.events (x : Exchange) : List UserEvent :=
  .puts (messageBytes "391OS> ".toList) :: .line x.line :: x.runs

/-- A session, from the start of the shell. -/
def session (xs : List Exchange) : List UserEvent :=
  .puts (messageBytes "Starting 391 Shell\n".toList) :: xs.flatMap Exchange.events

/-- None of these lines ends the session. -/
def Continues (xs : List Exchange) : Prop := ∀ x ∈ xs, commandOf x.line ≠ exitWord

/-- At any moment: the shell has come some way through a session, and has printed what it says. -/
structure InSession (printed : List UInt8) (s : RecordedWorld) : Prop where
  some_way : ∃ xs x, Continues xs ∧ s.events <+: session (xs ++ [x])
  printed : s.1.printed = printed ++ s.events.flatMap UserEvent.shown

/-- At the end: the last line was `exit`, and the shell returns 0. -/
structure SessionEnds (code : ℤ) (s : RecordedWorld) : Prop where
  code : code = 0
  exit : ∃ xs x, Continues xs ∧ commandOf x.line = exitWord ∧ s.events = session (xs ++ [x])

section
variable {m : Machine} {p : Pid} {v : View} {es : List UserEvent} {s : RecordedWorld} {α : Type}
  {Q : α → RecordedWorld → Prop}

theorem session_append (xs : List Exchange) (x : Exchange) :
    session (xs ++ [x]) = session xs ++ x.events := by
  unfold session
  rw [List.flatMap_append, List.flatMap_singleton]
  rfl

theorem AtPoint.inSession (h : AtPoint True p v es s) (xs : List Exchange) (x : Exchange)
    (hgo : Continues xs) (hway : es <+: session xs ++ x.events) : InSession v.printed s := by
  refine ⟨⟨xs, x, hgo, ?_⟩, ?_⟩
  · rw [h.events, session_append]
    exact hway
  · rw [h.events]
    exact h.sees.printed

/-- In the middle of an exchange. -/
theorem AtPoint.inExchange {xs : List Exchange} (h : AtPoint True p v (session xs ++ es) s)
    (x : Exchange) (hgo : Continues xs) (hway : es <+: x.events) : InSession v.printed s :=
  h.inSession xs x hgo ((List.prefix_append_right_inj _).mpr hway)

/-! ## The shell, round by round -/

/-- What the shell says to a result is what a session says. -/
theorem safe_report {G : RecordedWorld → Prop} {completion : Completion} {f : Unit → UserProg α}
    (h : AtPoint True p v es s) (hscreen : ToScreen v.fd_table) (hG : G s)
    (hrest : ∀ s', AtPoint True p v (es ++ completion.report) s' →
      Safe (platform m p False).recorded G Q (f ()) s') :
    Safe (platform m p False).recorded G Q ((reportResult completion.value).bind f) s := by
  unfold reportResult
  cases completion with
  | refused =>
    rw [if_pos (show Completion.refused.value = -1 from rfl)]
    exact safe_fdputs h hscreen (by decide) (by decide) hG hrest
  | full =>
    rw [if_neg (by decide), if_neg (by decide), if_pos (by decide)]
    exact safe_fdputs h hscreen (by decide) (by decide) hG hrest
  | status code =>
    have hvalue : (Completion.status code).value = (code.toNat : ℤ) := rfl
    have hlt := code.toNat_lt
    rw [hvalue, if_neg (by omega), if_neg (by omega)]
    by_cases hcode : code = 0
    · rw [if_neg (by rw [hcode]; decide)]
      refine hrest s ?_
      rw [Completion.report, if_pos hcode, List.append_nil]
      exact h
    · have hne : code.toNat ≠ 0 := fun hzero => hcode (UInt8.toNat.inj hzero)
      rw [if_pos (by omega)]
      rw [Completion.report, if_neg hcode] at hrest
      exact safe_fdputs h hscreen (by decide) (by decide) hG hrest

end

theorem ends_with_newline_iff {typed : List UInt8} (buf : Bytes) :
    (0 < (typed.length : ℤ) ∧ overwrite buf typed ((typed.length : ℤ) - 1).toNat = NEWLINE) ↔
      typed.getLast? = some NEWLINE := by
  have hindex : ((typed.length : ℤ) - 1).toNat = typed.length - 1 := by omega
  rw [hindex, List.getLast?_eq_getElem?]
  by_cases hpos : 0 < typed.length
  · have hlast : typed.length - 1 < typed.length := by omega
    simp only [overwrite, List.getElem?_eq_getElem hlast, Option.getD_some, Option.some.injEq]
    exact and_iff_right (by omega)
  · rw [List.getElem?_eq_none (by omega)]
    refine iff_of_false (fun h => hpos (by omega)) fun h => ?_
    cases h

/-- The array holds the command of the line. -/
theorem text_cutLine {typed : List UInt8} (buf : Bytes) (hlen : typed.length ≤ 1023) :
    Terminated (cutLine (overwrite buf typed) typed.length) ∧
      text (cutLine (overwrite buf typed) typed.length) = commandOf typed := by
  have hspace : typed.length < addressSpace := by
    unfold addressSpace
    omega
  unfold cutLine commandOf
  by_cases hnewline : typed.getLast? = some NEWLINE
  · -- the NUL replaces the newline
    have hindex : ((typed.length : ℤ) - 1).toNat = typed.length - 1 := by omega
    rw [if_pos hnewline, if_pos ((ends_with_newline_iff buf).mpr hnewline),
      List.dropLast_eq_take]
    dsimp only
    rw [hindex]
    exact text_overwrite_cut buf (Nat.sub_le _ _) hspace
  · rw [if_neg hnewline, if_neg fun h => hnewline ((ends_with_newline_iff buf).mp h)]
    dsimp only
    have hwhole := text_overwrite_cut buf (Nat.le_refl typed.length) hspace
    rwa [List.take_length] at hwhole

section
variable {m : Machine} {p : Pid} {v : View} {s : RecordedWorld} {xs : List Exchange}
  {line : List UInt8}

theorem Exchange.runs_of_skip {x : Exchange}
    (h : commandOf x.line = [] ∨ commandOf x.line = exitWord) : x.runs = [] := if_pos h

theorem Exchange.runs_of_command {x : Exchange} (hempty : commandOf x.line ≠ [])
    (hquit : commandOf x.line ≠ exitWord) :
    x.runs = .runs (commandOf x.line) x.completion.value :: x.completion.report :=
  if_neg (not_or.mpr ⟨hempty, hquit⟩)

theorem Continues.snoc {x : Exchange} (h : Continues xs) (hx : commandOf x.line ≠ exitWord) :
    Continues (xs ++ [x]) := by
  intro y hy
  rcases List.mem_append.mp hy with hy | hy
  · exact h y hy
  · rw [List.mem_singleton.mp hy]
    exact hx

/-- Between two rounds the calls so far are a whole session. -/
def AtPrompt (p : Pid) (v : View) (s : RecordedWorld) : Prop :=
  ∃ xs, Continues xs ∧ AtPoint True p v (session xs) s

/-- What a round has to leave. -/
abbrev RoundDone (m : Machine) (p : Pid) (v : View) : Bytes ⊕ ℤ → RecordedWorld → Prop :=
  AfterRound (platform m p False).recorded (InSession v.printed) SessionEnds
    (fun _ => AtPrompt p v) .ret

/-- A round whose command is executed. -/
theorem command_safe (hscreen : ToScreen v.fd_table) {buf : Bytes} (hgo : Continues xs)
    (htext : text buf = commandOf line) (hempty : commandOf line ≠ [])
    (hquit : commandOf line ≠ exitWord)
    (h : AtPoint True p v (session xs ++ [.puts (messageBytes "391OS> ".toList), .line line]) s) :
    Safe (platform m p False).recorded (InSession v.printed) (RoundDone m p v)
      ((ece391_execute buf).bind fun rval =>
        (reportResult rval.ret).bind fun _ => .ret (.inl buf)) s := by
  have hevents (completion : Completion) : (Exchange.mk line completion).events =
      [.puts (messageBytes "391OS> ".toList), .line line] ++
        .runs (commandOf line) completion.value :: completion.report := by
    rw [Exchange.events, Exchange.runs_of_command hempty hquit]
    rfl
  refine safe_execute h trivial ?_ fun completion s₁ hs₁ => ?_
  · exact h.inExchange ⟨line, .refused⟩ hgo ⟨_, rfl⟩
  rw [htext, List.append_assoc] at hs₁
  have hmoment : InSession v.printed s₁ := by
    refine hs₁.inExchange ⟨line, completion⟩ hgo ?_
    rw [hevents]
    exact ⟨_, rfl⟩
  refine safe_report hs₁ hscreen hmoment fun s₂ hs₂ => ?_
  have hdone : AtPoint True p v (session (xs ++ [⟨line, completion⟩])) s₂ := by
    rw [session_append, hevents]
    rw [List.append_assoc] at hs₂
    exact hs₂
  have hgo' : Continues (xs ++ [⟨line, completion⟩]) := hgo.snoc hquit
  refine .ret ?_ ⟨_, hgo', hdone⟩
  exact hdone.inSession _ ⟨[], .refused⟩ hgo' (List.prefix_append _ _)

/-- A round from its line on: it ends the session, is empty, or has a command. -/
theorem afterRead_safe (hscreen : ToScreen v.fd_table) (buf : Bytes) (hgo : Continues xs)
    (hlen : line.length ≤ 1023)
    (h : AtPoint True p v (session xs ++ [.puts (messageBytes "391OS> ".toList), .line line]) s) :
    Safe (platform m p False).recorded (InSession v.printed) (RoundDone m p v)
      (afterRead buf { ret := line.length, stored := line }) s := by
  obtain ⟨hterminated, htext⟩ := text_cutLine buf hlen
  have hexit : Terminated (message "exit".toList) := ⟨4, by decide, rfl⟩
  have hexitText : text (message "exit".toList) = exitWord :=
    text_message (by decide) (by decide)
  have hcmp := ece391_strcmp_eq_zero_iff hterminated hexit
  rw [htext, hexitText] at hcmp
  have hzero := first_eq_zero_iff hterminated
  rw [htext] at hzero
  have hmoment : InSession v.printed s := h.inExchange ⟨line, .refused⟩ hgo ⟨_, rfl⟩
  have hskip (hskips : commandOf line = [] ∨ commandOf line = exitWord) :
      AtPoint True p v (session (xs ++ [⟨line, .refused⟩])) s := by
    rw [session_append, Exchange.events, Exchange.runs_of_skip hskips]
    exact h
  unfold afterRead
  dsimp only
  rw [if_neg (show ¬ ((line.length : ℤ) = -1) by omega)]
  by_cases hquit : commandOf line = exitWord
  · -- nothing is executed: the exchange is over, and so is the session
    rw [if_pos (hcmp.mpr hquit)]
    refine .ret hmoment (.ret hmoment ⟨rfl, xs, ⟨line, .refused⟩, hgo, hquit, ?_⟩)
    exact (hskip (Or.inr hquit)).events
  rw [if_neg (fun hsame => hquit (hcmp.mp hsame))]
  by_cases hempty : commandOf line = []
  · rw [if_pos (hzero.mpr hempty)]
    exact .ret hmoment ⟨_, hgo.snoc hquit, hskip (Or.inl hempty)⟩
  rw [if_neg (fun hfirst => hempty (hzero.mp hfirst))]
  exact command_safe hscreen hgo htext hempty hquit h

/-- One round: an exchange more, or the end. -/
theorem shellRound_safe (hconsole : OnConsole v.fd_table) (buf : Bytes) (h : AtPrompt p v s) :
    Safe (platform m p False).recorded (InSession v.printed) (RoundDone m p v)
      (shellRound buf) s := by
  obtain ⟨xs, hgo, hat⟩ := h
  refine safe_fdputs hat hconsole.screen (by decide) (by decide) ?_ fun s₁ hs₁ => ?_
  · exact hat.inSession xs ⟨[], .refused⟩ hgo (List.prefix_append _ _)
  refine safe_read_line hs₁ hconsole.keyboard ?_ fun line s₂ hlen hs₂ => ?_
  · exact hs₁.inExchange ⟨[], .refused⟩ hgo ⟨_, rfl⟩
  rw [List.append_assoc] at hs₂
  exact afterRead_safe hconsole.screen buf hgo hlen hs₂

theorem shell_safe (hconsole : OnConsole v.fd_table) (buf : Bytes) (h : AtPoint True p v [] s) :
    Safe (platform m p False).recorded (InSession v.printed) SessionEnds (shell buf) s := by
  refine safe_fdputs h hconsole.screen (by decide) (by decide) ?_ fun s₁ hs₁ => ?_
  · refine h.inSession [] ⟨[], .refused⟩ (fun x hx => ?_) List.nil_prefix
    cases hx
  refine Safe.loop_of (fun _ => AtPrompt p v) (fun buf s hs => ?_) ⟨[], fun x hx => ?_, hs₁⟩
  · exact shellRound_safe hconsole buf hs
  · cases hx

end

/-- At every moment of every run of the shell that nothing disturbs, its calls are the beginning
of a session: after the greeting it prompts, reads a line, executes the command in it unless that
is empty or `exit`, and says when there was no such command or its status was not 0. It has
printed just that. It ends only after a line with `exit`, and returns 0. -/
theorem shell_session {m : Machine} {k : Kernel}
    (h : ReachableWhere m (fun k' e => OwnForeground m k.cur_pid k' e ∧ KeepsStacks m k' e) k)
    (buf : Bytes)
    {c : UserProg ℤ × RecordedWorld}
    (hruns : Runs (platform m k.cur_pid False).recorded
      (shell buf, ({ kernel := k, printed := [] }, [])) c) :
    InSession [] c.2 ∧ ∀ code, c.1 = .ret code → SessionEnds code c.2 := by
  have hcalls := callsItsChild_of_run (h.mono fun _ _ h => h.1)
  have hkeeps : ReachableWhere m (KeepsStacks m) k := h.mono fun _ _ h => h.2
  obtain ⟨hstart, hconsole⟩ := atPoint_first hkeeps fun _ : True => hcalls
  exact shell_safe hconsole buf hstart c hruns

/-- The first shell greets, prompts, reads `exit` and ends. -/
theorem shell_session_exit : ∃ s : RecordedWorld,
    Runs (platform sampleMachine sampleKernel.cur_pid False).recorded
      (shell fun _ => 0, ({ kernel := sampleKernel, printed := [] }, [])) (.ret 0, s) ∧
    InSession [] s ∧ SessionEnds 0 s := by
  have hinit : (system sampleMachine fun _ => True).init sampleKernel :=
    ⟨sampleMemory, trivial, sampleKernel_started⟩
  obtain ⟨-, hconsole⟩ := atPoint_first (System.ReachableWhere.init hinit)
    fun hfalse : False => hfalse.elim
  let w₀ : UserWorld := { kernel := sampleKernel, printed := [] }
  have hscreen₀ : ToScreen (w₀.kernel.pcb w₀.kernel.cur_pid).fd_table := hconsole.screen
  obtain ⟨w₁, log₁, hgreet, hcur₁, hpcb₁⟩ := step_fdputs sampleMachine []
    (message "Starting 391 Shell\n".toList) (fun _ => Prog.repeatUntil shellRound fun _ => 0)
    hscreen₀ (by decide +kernel)
  have hscreen₁ : ToScreen (w₁.kernel.pcb w₁.kernel.cur_pid).fd_table := by
    rw [hcur₁, hpcb₁]
    exact hconsole.screen
  obtain ⟨w₂, log₂, hprompt, hcur₂, hpcb₂⟩ := step_fdputs sampleMachine log₁
    (message "391OS> ".toList) (fun _ => (ece391_read 0 1023).bind fun cnt =>
      (afterRead (fun _ => 0) cnt).bind (.next shellRound .ret)) hscreen₁ (by decide +kernel)
  have hcur : w₂.kernel.cur_pid = sampleKernel.cur_pid := hcur₂.trans hcur₁
  have hkeyboard : ((w₂.kernel.pcb w₂.kernel.cur_pid).fd_table 0).flags = true ∧
      ((w₂.kernel.pcb w₂.kernel.cur_pid).fd_table 0).op_table_ptr = .stdin := by
    rw [hcur, hpcb₂, hpcb₁]
    exact hconsole.keyboard
  obtain ⟨w₃, log₃, hline, -⟩ := step_read sampleMachine log₂ "exit\n".toList
    (fun cnt => (afterRead (fun _ => 0) cnt).bind (.next shellRound .ret)) hkeyboard (by decide)
  have hquit : afterRead (fun _ => 0) { ret := 5, stored := messageBytes "exit\n".toList } =
      .ret (.inr 0) := by
    unfold afterRead
    dsimp only
    rw [if_neg (by decide), if_pos (by decide +kernel)]
    rfl
  have hend : (afterRead (fun _ => 0) { ret := 5, stored := messageBytes "exit\n".toList }).bind
      (.next shellRound .ret) = .ret 0 := by
    rw [hquit]
    rfl
  replace hline := hend ▸ hline
  rw [hcur] at hline
  rw [hcur₁] at hprompt
  have hruns : Runs (platform sampleMachine sampleKernel.cur_pid False).recorded
      (shell fun _ => 0, ({ kernel := sampleKernel, printed := [] }, [])) (.ret 0, (w₃, log₃)) :=
    .head hgreet (.head .loop (.head hprompt (.single hline)))
  obtain ⟨hin, hends⟩ := shell_session (System.ReachableWhere.init hinit) (fun _ => 0) hruns
  exact ⟨_, hruns, hin, hends 0 rfl⟩

end Kernel391
