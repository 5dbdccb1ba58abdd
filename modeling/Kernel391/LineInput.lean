import Kernel391.ConsoleTheorems
import Kernel391.Lib.TransitionSystem

/-!
# Reading a line (`terminal_read`, with keys and terminal switches in between)

`terminal_read` runs with interrupts enabled. It waits for `has_enter` of its own terminal,
and then copies and clears `keyboard_buffer`, which holds the line of whatever terminal is
on display. Here the call is cut at every place where it looks at shared data, and a
terminal switch where it has interrupts enabled; keys, ticks and the readers of the three
terminals interleave between the pieces.

Each terminal has one process that runs, and it makes one `terminal_read` call at a time. A
switch runs in the context of the process it has interrupted. A key may ask for another one
before it is done: that runs to its end first, and the one interrupted goes on with the
terminals it had begun with.
-/

namespace Kernel391

open TransitionSystem

/-! ## The pieces of a terminal switch -/

/-- `save_term_info` up to the end of `clear_keyboard_backup`, which enables interrupts. -/
def saveCursor (old_term : TermId) (s : Console) : Console :=
  clear_keyboard_backup old_term (s.modTerm old_term fun i => { i with
    cursor_x := UInt32.ofInt s.screen_x
    cursor_y := UInt32.ofInt s.screen_y
    cursor_location := s.current_location
    len_key_buf := s.length_key })

/-- From there to the call of `clear_keyboard_buffer`. -/
def saveLine (old_term : TermId) (s : Console) : Console :=
  let s := { s with vmem := copyScreen (s.term old_term).vid_backup VIDEO s.vmem }
  s.modTerm old_term fun i => { i with
    term_key_buf := copyBuffer i.term_key_buf s.keyboard_buffer, len_key_buf := s.length_key }

/-- The pieces make up the whole. -/
theorem switch_terminal_eq (old_term new_term : TermId) (s : Console) :
    switch_terminal old_term new_term s =
      restore_term_info new_term
        (clear_keyboard_buffer (saveLine old_term (saveCursor old_term s))) := rfl

/-- How far a switch has got. -/
inductive SwitchPhase where
  /-- The old line's backup is cleared. -/
  | opened
  /-- The old line is saved. -/
  | saved
  /-- The live line is cleared. -/
  | cleared
  /-- The new line is live; `curr_term` still names the old terminal. -/
  | restored
deriving DecidableEq

structure Switch where
  phase : SwitchPhase
  old_term : TermId
  new_term : TermId
  /-- The terminal whose process the keyboard has interrupted. -/
  context : TermId
deriving DecidableEq

/-! ## The pieces of `terminal_read` -/

/-- Where a call of `terminal_read` stands. `buf` holds the bytes stored so far in the
caller's buffer. -/
inductive Reader where
  /-- No call. -/
  | idle
  /-- `while (term[running_term].has_enter == 0) {}` -/
  | waiting (nbytes : ℤ)
  /-- Behind the loop. -/
  | entered (nbytes : ℤ)
  /-- At the head of the copy loop. -/
  | copying (nbytes : ℤ) (i : ℕ) (buf : ℕ → Option KeyCell)
  /-- Behind `if (i < length_key)`. -/
  | loading (nbytes : ℤ) (i : ℕ) (buf : ℕ → Option KeyCell)
  /-- At `if (length_key < nbytes)`. -/
  | counting (nbytes : ℤ) (i : ℕ) (buf : ℕ → Option KeyCell)
  /-- At `i = length_key`. -/
  | adjusting (buf : ℕ → Option KeyCell)
  /-- At `clear_keyboard_buffer()`. -/
  | clearing (i : ℕ) (buf : ℕ → Option KeyCell)

/-- The call uses the live line. -/
def Reader.Copying : Reader → Prop
  | .idle | .waiting _ | .entered _ => False
  | _ => True

instance (r : Reader) : Decidable r.Copying := by
  cases r <;> unfold Reader.Copying <;> infer_instance

/-- A call of `terminal_read` that has returned `count`. -/
structure LineRead where
  term : TermId
  count : ℕ
  buf : ℕ → Option KeyCell

structure InputState where
  console : Console
  curr_term : TermId
  running_term : TermId
  has_process : TermId → Bool
  reader : TermId → Reader
  /-- The switches under way, the last one begun first. -/
  switching : List Switch
  returned : List LineRead

inductive InputEvent where
  /-- A byte from the keyboard. -/
  | key (c : ℕ)
  /-- The terminal switch the running process is in goes on. -/
  | switchStep
  /-- The timer switches to another terminal's process. -/
  | tick (next : TermId)
  /-- The running process calls `terminal_read`. -/
  | read (nbytes : ℤ)
  /-- Its call goes on. -/
  | readStep

namespace InputState

def setReader (s : InputState) (r : Reader) : InputState :=
  { s with reader := Function.update s.reader s.running_term r }

/-- The running process is not interrupted by a terminal switch. -/
def Free (s : InputState) : Prop :=
  ∀ sw ∈ s.switching, sw.context ≠ s.running_term

instance (s : InputState) : Decidable s.Free := by
  unfold Free
  infer_instance

/-- One piece of `terminal_read`. -/
def readStep (s : InputState) : Option InputState :=
  match s.reader s.running_term with
  | .idle => none
  | .waiting n =>
    if (s.console.term s.running_term).has_enter then some (s.setReader (.entered n)) else some s
  | .entered n =>
    some { s.setReader (.copying n 0 fun _ => none) with
      console := s.console.modTerm s.running_term fun i => { i with has_enter := false } }
  | .copying n i buf =>
    if (i : ℤ) < n then
      if i < s.console.length_key then some (s.setReader (.loading n i buf))
      else some (s.setReader (.copying n (i + 1) buf))
    else some (s.setReader (.counting n i buf))
  | .loading n i buf =>
    let buf := Function.update buf i (some (s.console.keyboard_buffer i))
    some (s.setReader (.copying n (i + 1) buf))
  | .counting n i buf =>
    if s.console.length_key < toUnsigned n then some (s.setReader (.adjusting buf))
    else some (s.setReader (.clearing i buf))
  | .adjusting buf => some (s.setReader (.clearing s.console.length_key buf))
  | .clearing i buf =>
    some { s.setReader .idle with
      console := clear_keyboard_buffer s.console
      returned := { term := s.running_term, count := i, buf := buf } :: s.returned }

/-- The innermost switch of the running process. -/
def current (s : InputState) : Option Switch :=
  s.switching.find? fun sw => sw.context = s.running_term

/-- That switch has got further. -/
def advance (s : InputState) (sw : Switch) (phase : SwitchPhase) : List Switch :=
  s.switching.replaceF fun other =>
    if other.context = s.running_term then some { sw with phase := phase } else none

/-- One piece of `launch_term`. -/
def switchStep (s : InputState) : Option InputState :=
  match s.current with
  | none => none
  | some sw =>
    match sw.phase with
    | .opened =>
      some { s with console := saveLine sw.old_term s.console
                    switching := s.advance sw .saved }
    | .saved =>
      some { s with console := clear_keyboard_buffer s.console
                    switching := s.advance sw .cleared }
    | .cleared =>
      some { s with console := restore_term_info sw.new_term s.console
                    switching := s.advance sw .restored }
    | .restored =>
      some { s with curr_term := sw.new_term
                    switching := s.switching.eraseP fun sw => sw.context = s.running_term }

/-- One step. Ctrl+C and a switch to a terminal without a process are not followed. -/
def step (s : InputState) : InputEvent → Option InputState
  | .key c => do
    let (console, action) ← keyboard_interrupt_handler s.curr_term c s.console
    let s := { s with console := console }
    match action with
    | .done => some s
    | .halt => none
    | .launch t =>
      if t = s.curr_term then some s
      else if s.has_process t then
        some { s with
          console := saveCursor s.curr_term s.console
          switching :=
            { phase := .opened, old_term := s.curr_term, new_term := t
              context := s.running_term } :: s.switching }
      else none
  | .switchStep => s.switchStep
  | .tick next => if s.has_process next then some { s with running_term := next } else none
  | .read nbytes =>
    if s.Free ∧ -2 ^ 31 ≤ nbytes ∧ nbytes < 2 ^ 31 then
      match s.reader s.running_term with
      | .idle => some (s.setReader (.waiting nbytes))
      | _ => none
    else none
  | .readStep => if s.Free then s.readStep else none

end InputState

/-- The console as `init_term` leaves it, and no call under way. -/
def lineInput : System InputState InputEvent where
  init s := (∃ s₀, s.console = init_term_console s₀) ∧ s.curr_term = 0 ∧
    (∀ t, s.reader t = .idle) ∧ s.switching = [] ∧ s.returned = []
  step := InputState.step

/-! ## Whose line is live -/

/-- The terminal whose line is live during a switch. -/
def Switch.liveTerm (sw : Switch) : Option TermId :=
  match sw.phase with
  | .opened => some sw.old_term
  | .saved => none
  | .cleared => none
  | .restored => some sw.new_term

namespace InputState

/-- The terminal whose line `keyboard_buffer` holds; the last switch begun decides. -/
def liveTerm (s : InputState) : Option TermId :=
  match s.switching with
  | [] => some s.curr_term
  | sw :: _ => sw.liveTerm

/-- The pending input of a terminal. -/
def line (s : InputState) (t : TermId) : List KeyCell :=
  if s.liveTerm = some t then s.console.live else s.console.saved t

theorem line_eq_live {s : InputState} {t : TermId} (h : s.liveTerm = some t) :
    s.line t = s.console.live := if_pos h

theorem line_eq_saved {s : InputState} {t : TermId} (h : s.liveTerm ≠ some t) :
    s.line t = s.console.saved t := if_neg h

/-- A console with the same lines. -/
theorem line_congr {s s' : InputState} (hlive : s'.liveTerm = s.liveTerm)
    (h : SameLines s.console s'.console) (t : TermId) : s'.line t = s.line t := by
  unfold line
  rw [hlive, h.live, h.saved]

theorem liveTerm_of_none {s : InputState} (h : s.switching = []) :
    s.liveTerm = some s.curr_term := by
  unfold liveTerm
  rw [h]

theorem liveTerm_of_some {s : InputState} {sw : Switch} (h : s.switching = [sw]) :
    s.liveTerm = sw.liveTerm := by
  unfold liveTerm
  rw [h]

/-- With one switch under way, a step is one of that switch. -/
theorem current_of_one {s : InputState} {sw sw' : Switch} (h : s.switching = [sw])
    (hcur : s.current = some sw') :
    sw' = sw ∧ (∀ phase, s.advance sw phase = [{ sw with phase := phase }]) ∧
      (s.switching.eraseP fun sw => sw.context = s.running_term) = [] := by
  unfold current at hcur
  unfold advance
  rw [h] at hcur ⊢
  by_cases hctx : sw.context = s.running_term
  · rw [List.find?_cons_of_pos (by simpa using hctx), Option.some.injEq] at hcur
    exact ⟨hcur.symm, by simp [hctx], by simp [hctx]⟩
  · rw [List.find?_cons_of_neg (by simpa using hctx)] at hcur
    cases hcur

end InputState

/-! ## What a run has to avoid -/

/-- The byte asks for another terminal. -/
def AsksForSwitch (c : ℕ) (s : InputState) : Prop :=
  ∃ t, t ≠ s.curr_term ∧
    (keyboard_interrupt_handler s.curr_term c s.console).map Prod.snd = some (.launch t)

instance (c : ℕ) (s : InputState) : Decidable (AsksForSwitch c s) := by
  unfold AsksForSwitch
  infer_instance

/-- The key edits no line but that of the displayed terminal, with no switch under way, no read
of it and room for the character. -/
def EditsOwnLine (c : ℕ) (s : InputState) : Prop :=
  c ≠ 0 → c < KEY_COUNT → EditsLine c s.console →
    s.switching = [] ∧ ¬ (s.reader s.curr_term).Copying ∧
      (IsCharacter c s.console → s.console.length_key ≠ KEYBOARD_BUFFER_SIZE)

instance (c : ℕ) (s : InputState) : Decidable (EditsOwnLine c s) := by
  unfold EditsOwnLine
  infer_instance

/-- The steps that leave each line to its own terminal: no key edits a line during a
terminal switch, while that line is being read, or behind the end of a full buffer; none asks
for another terminal during a switch; the length asked for is not negative; and
`terminal_read` uses the live line only while its terminal is on display. -/
def KeepsLinesApart (s : InputState) : InputEvent → Prop
  | .key c => EditsOwnLine c s ∧ (AsksForSwitch c s → s.switching = [])
  | .read nbytes => 0 ≤ nbytes
  | .readStep => (s.reader s.running_term).Copying →
      s.switching = [] ∧ s.curr_term = s.running_term
  | _ => True

/-- A byte that was copied, and typed on this terminal. -/
def Got (t : TermId) (b : Option KeyCell) : Prop := ∃ c, b = some c ∧ TypedOn t c

/-- What a call has copied so far, for a line of `length` characters. -/
def ReaderOk (t : TermId) (length : ℕ) : Reader → Prop
  | .idle => True
  | .waiting n => 0 ≤ n ∧ n < 2 ^ 31
  | .entered n => 0 ≤ n ∧ n < 2 ^ 31
  | .copying n i buf => (i : ℤ) ≤ n ∧ n < 2 ^ 31 ∧ ∀ j < i, j < length → Got t (buf j)
  | .loading n i buf =>
    (i : ℤ) < n ∧ n < 2 ^ 31 ∧ i < length ∧ ∀ j < i, j < length → Got t (buf j)
  | .counting n i buf => (i : ℤ) = n ∧ n < 2 ^ 31 ∧ ∀ j < i, j < length → Got t (buf j)
  | .adjusting buf => ∀ j < length, Got t (buf j)
  | .clearing i buf => ∀ j < i, Got t (buf j)

/-- A call that does not use the line says nothing about its length. -/
theorem ReaderOk.of_not_copying {t : TermId} {length length' : ℕ} {r : Reader}
    (h : ReaderOk t length r) (hr : ¬ r.Copying) : ReaderOk t length' r := by
  cases r with
  | idle => trivial
  | waiting n => exact h
  | entered n => exact h
  | copying n i buf => exact absurd trivial hr
  | loading n i buf => exact absurd trivial hr
  | counting n i buf => exact absurd trivial hr
  | adjusting buf => exact absurd trivial hr
  | clearing i buf => exact absurd trivial hr

/-- The bytes a call returned were all typed on its terminal. -/
def LineRead.Own (r : LineRead) : Prop := ∀ j < r.count, Got r.term (r.buf j)

structure InputOk (s : InputState) : Prop where
  length_le : ∀ t, (s.line t).length ≤ KEYBOARD_BUFFER_SIZE
  typed : ∀ t, ∀ c ∈ s.line t, TypedOn t c
  readers : ∀ t, ReaderOk t (s.line t).length (s.reader t)
  returned : ∀ r ∈ s.returned, r.Own
  switching : s.switching = [] ∨
    ∃ sw, s.switching = [sw] ∧ sw.old_term = s.curr_term ∧ sw.new_term ≠ s.curr_term

/-! ## Each step keeps the lines apart -/

namespace InputOk

variable {s s' : InputState}

/-- Steps that move no character. -/
theorem congr (h : InputOk s) (hline : ∀ t, s'.line t = s.line t)
    (hreader : s'.reader = s.reader) (hreturned : s'.returned = s.returned)
    (hswitch : s'.switching = [] ∨ ∃ sw, s'.switching = [sw] ∧ sw.old_term = s'.curr_term ∧
      sw.new_term ≠ s'.curr_term) : InputOk s' := by
  constructor
  · intro t
    rw [hline]
    exact h.length_le t
  · intro t
    rw [hline]
    exact h.typed t
  · intro t
    rw [hline, hreader]
    exact h.readers t
  · rw [hreturned]
    exact h.returned
  · exact hswitch

/-- The running process's call moves on and no line changes. -/
theorem setReader (h : InputOk s) {r : Reader}
    (hr : ReaderOk s.running_term (s.line s.running_term).length r) : InputOk (s.setReader r) := by
  refine ⟨h.length_le, h.typed, fun t => ?_, h.returned, h.switching⟩
  show ReaderOk t (s.line t).length (Function.update s.reader s.running_term r t)
  by_cases ht : t = s.running_term
  · rw [ht, Function.update_self]
    exact hr
  · rw [Function.update_of_ne ht]
    exact h.readers t

/-- A key that leaves the lines alone. -/
theorem console (h : InputOk s) {console : Console} (hc : SameLines s.console console) :
    InputOk { s with console := console } :=
  h.congr (InputState.line_congr rfl hc) rfl rfl h.switching

/-- A key that edits the line of the displayed terminal. -/
theorem edit (h : InputOk s) {console : Console} (hnone : s.switching = [])
    (hreader : ¬ (s.reader s.curr_term).Copying)
    (hc : KeyEffect s.curr_term s.console console) : InputOk { s with console := console } := by
  have hlive := InputState.liveTerm_of_none hnone
  have hline : ∀ t, t ≠ s.curr_term →
      InputState.line { s with console := console } t = s.line t := by
    intro t ht
    have hne : s.liveTerm ≠ some t := by
      rw [hlive]
      exact fun heq => ht (Option.some.inj heq).symm
    rw [InputState.line_eq_saved hne]
    exact (InputState.line_eq_saved (s := { s with console := console }) hne).trans (hc.saved t)
  have hcurr : InputState.line { s with console := console } s.curr_term = console.live :=
    InputState.line_eq_live (s := { s with console := console }) hlive
  have hedit := hc.live
  rw [← InputState.line_eq_live hlive] at hedit
  constructor
  · intro t
    by_cases ht : t = s.curr_term
    · rw [ht, hcurr]
      exact hedit.length_le (h.length_le _)
    · rw [hline t ht]
      exact h.length_le t
  · intro t
    by_cases ht : t = s.curr_term
    · rw [ht, hcurr]
      exact hedit.forall_mem (h.typed _) fun c hc => hc
    · rw [hline t ht]
      exact h.typed t
  · intro t
    by_cases ht : t = s.curr_term
    · have hr := h.readers t
      rw [ht] at hr ⊢
      exact hr.of_not_copying hreader
    · rw [hline t ht]
      exact h.readers t
  · exact h.returned
  · exact h.switching

/-- A key, whatever it goes on to do. -/
theorem key (h : InputOk s) {c : ℕ} (hok : EditsOwnLine c s) {console : Console}
    {action : KeyAction}
    (hkey : keyboard_interrupt_handler s.curr_term c s.console = some (console, action)) :
    InputOk { s with console := console } := by
  rcases keyboard_interrupt_handler_cases hkey with ⟨h0, hlt, i, hchar⟩ | hsame
  · by_cases hedit : EditsLine c s.console
    · obtain ⟨hnone, hreader, hroom⟩ := hok h0 hlt hedit
      have hlen : s.console.length_key ≤ KEYBOARD_BUFFER_SIZE := by
        have hline := h.length_le s.curr_term
        rw [InputState.line_eq_live (InputState.liveTerm_of_none hnone), length_live] at hline
        exact hline
      exact h.edit hnone hreader (process_char_effect hlen hroom hchar)
    · exact h.console (process_char_same hedit hchar)
  · exact h.console hsame

/-- The first piece of a switch clears the backup of the line that is live. -/
theorem openSwitch (h : InputOk s) (hnone : s.switching = []) {t context : TermId}
    (ht : t ≠ s.curr_term) :
    InputOk { s with
      console := saveCursor s.curr_term s.console
      switching :=
        { phase := .opened, old_term := s.curr_term, new_term := t
          context := context } :: s.switching } := by
  have hlive := InputState.liveTerm_of_none hnone
  rw [hnone]
  refine h.congr (fun u => ?_) rfl rfl (Or.inr ⟨_, rfl, rfl, ht⟩)
  unfold InputState.line
  rw [hlive]
  show (if some s.curr_term = some u then s.console.live
    else (saveCursor s.curr_term s.console).saved u) = _
  by_cases hu : u = s.curr_term
  · rw [hu, if_pos rfl, if_pos rfl]
  · have hne : some s.curr_term ≠ some u := fun heq => hu (Option.some.inj heq).symm
    rw [if_neg hne, if_neg hne]
    unfold Console.saved saveCursor clear_keyboard_backup Console.modTerm
    dsimp only
    rw [Function.update_of_ne hu, Function.update_of_ne hu]

/-- The second piece copies the live line to its backup. -/
theorem saveLine (h : InputOk s) {sw : Switch} (hlive : s.liveTerm = some s.curr_term)
    (hold : sw.old_term = s.curr_term) (hne : sw.new_term ≠ s.curr_term) :
    InputOk { s with console := saveLine sw.old_term s.console
                     switching := [{ sw with phase := .saved }] } := by
  have hsame : Kernel391.saveLine sw.old_term s.console =
      Kernel391.saveLine s.curr_term s.console := congrArg (Kernel391.saveLine · s.console) hold
  rw [hsame]
  refine h.congr (fun u => ?_) rfl rfl (Or.inr ⟨_, rfl, hold, hne⟩)
  show (Kernel391.saveLine s.curr_term s.console).saved u = s.line u
  unfold Console.saved Kernel391.saveLine Console.modTerm
  by_cases hu : u = s.curr_term
  · -- the live line fits the 128 characters `memcpy` copies
    have hlen := h.length_le u
    rw [hu, InputState.line_eq_live hlive] at hlen ⊢
    rw [length_live] at hlen
    dsimp only
    rw [Function.update_self]
    exact copyBuffer_cells _ _ hlen
  · have hnot : s.liveTerm ≠ some u := by
      rw [hlive]
      exact fun heq => hu (Option.some.inj heq).symm
    rw [InputState.line_eq_saved hnot]
    dsimp only
    rw [Function.update_of_ne hu]
    rfl

/-- The fourth piece copies a backup to the live line. -/
theorem restoreLine (h : InputOk s) {sw : Switch} (hlive : s.liveTerm = none)
    (hold : sw.old_term = s.curr_term) (hne : sw.new_term ≠ s.curr_term) :
    InputOk { s with console := restore_term_info sw.new_term s.console
                     switching := [{ sw with phase := .restored }] } := by
  have hsaved : ∀ u, s.line u = s.console.saved u := by
    intro u
    refine InputState.line_eq_saved ?_
    rw [hlive]
    exact (Option.some_ne_none u).symm
  refine h.congr (fun u => ?_) rfl rfl (Or.inr ⟨_, rfl, hold, hne⟩)
  rw [hsaved]
  show (if some sw.new_term = some u then
    (restore_term_info sw.new_term s.console).live else s.console.saved u) = _
  by_cases hu : u = sw.new_term
  · have hlen := h.length_le u
    rw [hsaved, hu, Console.saved, length_cells] at hlen
    rw [hu, if_pos rfl]
    exact copyBuffer_cells _ _ hlen
  · exact if_neg fun heq => hu (Option.some.inj heq).symm

/-- The later pieces move the old line out and the new one in. -/
theorem switchStep (h : InputOk s) (hs : s.switchStep = some s') : InputOk s' := by
  unfold InputState.switchStep at hs
  cases hcur : s.current with
  | none =>
    rw [hcur] at hs
    cases hs
  | some sw' =>
    rcases h.switching with hnone | ⟨sw, hsw, hold, hne⟩
    · rw [InputState.current, hnone] at hcur
      cases hcur
    obtain ⟨rfl, hadvance, herase⟩ := InputState.current_of_one hsw hcur
    have hlive := InputState.liveTerm_of_some hsw
    unfold Switch.liveTerm at hlive
    rw [hcur] at hs
    simp only [hadvance, herase] at hs
    cases hphase : sw'.phase with
    | opened =>
      rw [hphase] at hs hlive
      dsimp only at hs hlive
      rw [Option.some.injEq] at hs
      exact hs ▸ h.saveLine (hlive.trans (congrArg some hold)) hold hne
    | saved =>
      rw [hphase] at hs hlive
      dsimp only at hs hlive
      rw [Option.some.injEq] at hs
      refine hs ▸ h.congr (fun u => ?_) rfl rfl (Or.inr ⟨_, rfl, hold, hne⟩)
      have hnot : s.liveTerm ≠ some u := by
        rw [hlive]
        exact (Option.some_ne_none u).symm
      rw [InputState.line_eq_saved hnot]
      rfl
    | cleared =>
      rw [hphase] at hs hlive
      dsimp only at hs hlive
      rw [Option.some.injEq] at hs
      exact hs ▸ h.restoreLine hlive hold hne
    | restored =>
      rw [hphase] at hs hlive
      dsimp only at hs hlive
      rw [Option.some.injEq] at hs
      have hnew : InputState.liveTerm { s with curr_term := sw'.new_term, switching := [] } =
          s.liveTerm := hlive.symm
      exact hs ▸ h.congr (InputState.line_congr hnew (SameLines.refl s.console)) rfl rfl
        (Or.inl rfl)

/-- The line is emptied and the call returns. -/
theorem finish (h : InputOk s) (hlive : s.liveTerm = some s.running_term) {i : ℕ}
    {buf : ℕ → Option KeyCell} (hgot : ∀ j < i, Got s.running_term (buf j)) :
    InputOk { s.setReader .idle with
      console := clear_keyboard_buffer s.console
      returned := { term := s.running_term, count := i, buf := buf } :: s.returned } := by
  have hother : ∀ u, u ≠ s.running_term → InputState.line { s.setReader .idle with
      console := clear_keyboard_buffer s.console
      returned := { term := s.running_term, count := i, buf := buf } :: s.returned } u =
      s.line u := by
    intro u hu
    have hnot : s.liveTerm ≠ some u := by
      rw [hlive]
      exact fun heq => hu (Option.some.inj heq).symm
    exact (if_neg hnot).trans (InputState.line_eq_saved hnot).symm
  have hown : InputState.line { s.setReader .idle with
      console := clear_keyboard_buffer s.console
      returned := { term := s.running_term, count := i, buf := buf } :: s.returned }
      s.running_term = [] := if_pos hlive
  constructor
  · intro t
    by_cases ht : t = s.running_term
    · rw [ht, hown]
      exact Nat.zero_le _
    · rw [hother t ht]
      exact h.length_le t
  · intro t
    by_cases ht : t = s.running_term
    · rw [ht, hown]
      intro c hc
      cases hc
    · rw [hother t ht]
      exact h.typed t
  · intro t
    show ReaderOk t _ (Function.update s.reader s.running_term .idle t)
    by_cases ht : t = s.running_term
    · rw [ht, Function.update_self]
      trivial
    · rw [hother t ht, Function.update_of_ne ht]
      exact h.readers t
  · intro r hr
    rcases List.mem_cons.mp hr with rfl | hr
    · exact hgot
    · exact h.returned r hr
  · exact h.switching

/-- One piece of `terminal_read`, taken while its terminal is on display if it uses the
live line. -/
theorem readStep (h : InputOk s)
    (hok : (s.reader s.running_term).Copying →
      s.switching = [] ∧ s.curr_term = s.running_term)
    (hs : s.readStep = some s') : InputOk s' := by
  have hr := h.readers s.running_term
  unfold InputState.readStep at hs
  have hlive : (s.reader s.running_term).Copying → s.liveTerm = some s.running_term := by
    intro hcopy
    obtain ⟨hnone, hcurr⟩ := hok hcopy
    rw [InputState.liveTerm_of_none hnone, hcurr]
  have hlength : (s.reader s.running_term).Copying →
      (s.line s.running_term).length = s.console.length_key := by
    intro hcopy
    rw [InputState.line_eq_live (hlive hcopy), length_live]
  -- only the pieces from the copy loop on look at the live line
  cases hcall : s.reader s.running_term with
  | idle =>
    rw [hcall] at hs
    cases hs
  | waiting n =>
    rw [hcall] at hs hr
    dsimp only at hs
    split_ifs at hs
    · rw [Option.some.injEq] at hs
      exact hs ▸ h.setReader hr
    · rw [Option.some.injEq] at hs
      exact hs ▸ h
  | entered n =>
    rw [hcall] at hs hr
    dsimp only at hs
    rw [Option.some.injEq] at hs
    have hstart : InputOk (s.setReader (.copying n 0 fun _ => none)) :=
      h.setReader ⟨hr.1, hr.2, fun j hj => absurd hj (Nat.not_lt_zero j)⟩
    exact hs ▸ hstart.console (has_enter_lines s.running_term false s.console)
  | copying n i buf =>
    rw [hcall] at hs hr hlength
    obtain ⟨hin, hn, hgot⟩ := hr
    have hlen := hlength trivial
    dsimp only at hs
    split_ifs at hs with hlt hkey
    · rw [Option.some.injEq] at hs
      exact hs ▸ h.setReader ⟨hlt, hn, by omega, hgot⟩
    · -- past the end of the line nothing is copied
      rw [Option.some.injEq] at hs
      refine hs ▸ h.setReader ⟨by omega, hn, fun j hj hjl => hgot j ?_ hjl⟩
      omega
    · rw [Option.some.injEq] at hs
      exact hs ▸ h.setReader ⟨by omega, hn, hgot⟩
  | loading n i buf =>
    rw [hcall] at hs hr hlength hlive
    obtain ⟨hin, hn, hil, hgot⟩ := hr
    have hlen := hlength trivial
    dsimp only at hs
    rw [Option.some.injEq] at hs
    refine hs ▸ h.setReader ⟨by omega, hn, fun j hj hjl => ?_⟩
    by_cases hji : j = i
    · rw [hji, Function.update_self]
      have hmem : s.console.keyboard_buffer i ∈ s.line s.running_term := by
        rw [InputState.line_eq_live (hlive trivial)]
        exact mem_cells (by omega)
      exact ⟨_, rfl, h.typed _ _ hmem⟩
    · rw [Function.update_of_ne hji]
      exact hgot j (by omega) hjl
  | counting n i buf =>
    rw [hcall] at hs hr hlength
    obtain ⟨hin, hn, hgot⟩ := hr
    have hlen := hlength trivial
    have hunsigned := toUnsigned_eq (n := n) (by omega) hn
    dsimp only at hs
    split_ifs at hs with hkey
    · rw [Option.some.injEq] at hs
      exact hs ▸ h.setReader fun j hj => hgot j (by omega) hj
    · rw [Option.some.injEq] at hs
      exact hs ▸ h.setReader fun j hj => hgot j hj (by omega)
  | adjusting buf =>
    rw [hcall] at hs hr hlength
    have hlen := hlength trivial
    dsimp only at hs
    rw [Option.some.injEq] at hs
    exact hs ▸ h.setReader fun j hj => hr j (hlen.symm ▸ hj)
  | clearing i buf =>
    rw [hcall] at hs hr hlive
    dsimp only at hs
    rw [Option.some.injEq] at hs
    exact hs ▸ h.finish (hlive trivial) hr

end InputOk

/-! ## Runs -/

/-- The events of a call of `terminal_read`. -/
def InputEvent.OfRead : InputEvent → Prop
  | .read _ => True
  | .readStep => True
  | _ => False

/-- A reader changes no line but the one on display. -/
theorem readStep_line {s s' : InputState} {u : TermId} (hu : u ≠ s.running_term)
    (hok : (s.reader s.running_term).Copying →
      s.switching = [] ∧ s.curr_term = s.running_term)
    (hs : s.readStep = some s') : s'.line u = s.line u := by
  unfold InputState.readStep at hs
  cases hcall : s.reader s.running_term with
  | idle =>
    rw [hcall] at hs
    cases hs
  | waiting n =>
    rw [hcall] at hs
    dsimp only at hs
    split_ifs at hs <;> cases hs <;> rfl
  | entered n =>
    rw [hcall] at hs
    cases hs
    refine InputState.line_congr ?_ ?_ u
    · rfl
    · exact has_enter_lines s.running_term false s.console
  | copying n i buf =>
    rw [hcall] at hs
    dsimp only at hs
    split_ifs at hs <;> cases hs <;> rfl
  | loading n i buf =>
    rw [hcall] at hs
    cases hs
    rfl
  | counting n i buf =>
    rw [hcall] at hs
    dsimp only at hs
    split_ifs at hs <;> cases hs <;> rfl
  | adjusting buf =>
    rw [hcall] at hs
    cases hs
    rfl
  | clearing i buf =>
    obtain ⟨hnone, hcurr⟩ := hok (hcall.symm ▸ trivial)
    have hnot : s.liveTerm ≠ some u := by
      rw [InputState.liveTerm_of_none hnone, hcurr]
      exact fun heq => hu (Option.some.inj heq).symm
    rw [hcall] at hs
    cases hs
    exact (if_neg hnot).trans (InputState.line_eq_saved hnot).symm

/-- Every step that keeps the lines apart keeps the invariant. -/
theorem InputOk.step {s s' : InputState} {e : InputEvent} (h : InputOk s)
    (hok : KeepsLinesApart s e) (hs : s.step e = some s') : InputOk s' := by
  unfold InputState.step at hs
  cases e with
  | key c =>
    dsimp only at hs
    rw [Option.bind_eq_bind, Option.bind_eq_some_iff] at hs
    obtain ⟨⟨console, action⟩, hkey, hs⟩ := hs
    have hpressed := h.key hok.1 hkey
    cases action with
    | done => exact Option.some.inj hs ▸ hpressed
    | halt => cases hs
    | launch t =>
      dsimp only at hs
      split_ifs at hs with ht hnew
      · exact Option.some.inj hs ▸ hpressed
      · have hnone := hok.2 ⟨t, ht, by rw [hkey]; rfl⟩
        exact Option.some.inj hs ▸ hpressed.openSwitch hnone ht
  | switchStep => exact h.switchStep hs
  | tick next =>
    dsimp only at hs
    split_ifs at hs
    exact Option.some.inj hs ▸ h.congr (fun t => rfl) rfl rfl h.switching
  | read nbytes =>
    dsimp only at hs
    split_ifs at hs with hfree
    split at hs
    · exact Option.some.inj hs ▸ h.setReader ⟨hok, hfree.2.2⟩
    · cases hs
  | readStep =>
    dsimp only at hs
    split_ifs at hs
    exact h.readStep hok hs

/-- `init_term` leaves empty lines. -/
theorem init_term_console_lines (s : Console) :
    (init_term_console s).live = [] ∧ ∀ t, (init_term_console s).saved t = [] := by
  constructor
  · rfl
  · intro t
    have hlen : ((init_term_console s).term t).len_key_buf = 0 :=
      match t with
      | 0 => rfl
      | 1 => rfl
      | 2 => rfl
    rw [Console.saved, hlen]
    rfl

theorem inputOk_init {s : InputState} (h : lineInput.init s) : InputOk s := by
  obtain ⟨⟨s₀, hconsole⟩, -, hreader, hswitch, hreturned⟩ := h
  have hline : ∀ t, s.line t = [] := by
    intro t
    unfold InputState.line
    rw [hconsole, (init_term_console_lines s₀).1, (init_term_console_lines s₀).2 t, ite_self]
  constructor
  · intro t
    rw [hline]
    exact Nat.zero_le _
  · intro t c hc
    rw [hline] at hc
    cases hc
  · intro t
    rw [hreader]
    trivial
  · rw [hreturned]
    intro r hr
    cases hr
  · exact Or.inl hswitch

/-- In every run whose steps keep the lines apart, a read returns only what was typed on its
terminal, and leaves the pending input of the other terminals as it is. -/
theorem input_isolated {s : InputState} (h : lineInput.ReachableWhere KeepsLinesApart s) :
    (∀ r ∈ s.returned, r.Own) ∧
      ∀ e s', e.OfRead → KeepsLinesApart s e → s.step e = some s' →
        ∀ u, u ≠ s.running_term → s'.line u = s.line u := by
  have hsafe : InputOk s :=
    h.invariant (fun _ h0 => inputOk_init h0) fun _ _ _ _ hi hok hs => hi.step hok hs
  refine ⟨hsafe.returned, fun e s' he hok hs u hu => ?_⟩
  unfold InputState.step at hs
  cases e with
  | read nbytes =>
    dsimp only at hs
    split_ifs at hs
    split at hs
    · exact Option.some.inj hs ▸ rfl
    · cases hs
  | readStep =>
    dsimp only at hs
    split_ifs at hs
    exact readStep_line hu hok hs
  | key c => cases he
  | switchStep => cases he
  | tick next => cases he

instance (s : InputState) (e : InputEvent) : Decidable (KeepsLinesApart s e) := by
  cases e <;> unfold KeepsLinesApart <;> infer_instance

/-- Terminals 0 and 1 have a process. -/
def sampleInput : InputState where
  console := init_term_console Console.blank
  curr_term := 0
  running_term := 0
  has_process t := t ≠ 2
  reader _ := .idle
  switching := []
  returned := []

theorem sampleInput_init : lineInput.init sampleInput :=
  ⟨⟨Console.blank, rfl⟩, rfl, fun _ => rfl, rfl, rfl⟩

/-- Terminal 0 reads a letter typed on it while the other process runs. -/
theorem input_isolated_letter : ∃ s, lineInput.ReachableWhere KeepsLinesApart s ∧
    s.returned.map LineRead.count = [1] ∧ ∀ r ∈ s.returned, r.Own := by
  have hrun : ((lineInput.restrict KeepsLinesApart).runFrom sampleInput
      [.read 1, .tick 1, .key 0x1E, .key 0x1C, .tick 0, .readStep, .readStep, .readStep,
        .readStep, .readStep, .readStep, .readStep]).any
      (fun s => decide (s.returned.map LineRead.count = [1])) = true := by
    decide +kernel
  obtain ⟨s, hkeeps, hcount⟩ := System.ReachableWhere.exists_of_run sampleInput_init _ hrun
  exact ⟨s, hkeeps, hcount, (input_isolated hkeeps).1⟩

/-- Terminal 0 waits for a line; its Enter is pressed while the other process runs, then
terminal 1 is put on display and a letter typed there. When the reader runs again it takes
that letter, and the pending line of terminal 1 is gone. -/
theorem input_not_isolated : ¬ ∀ s, lineInput.Reachable s →
    (∀ r ∈ s.returned, r.Own) ∧
      ∀ e s', e.OfRead → s.step e = some s' → ∀ u, u ≠ s.running_term → s'.line u = s.line u := by
  intro hall
  have hrun : (lineInput.runFrom sampleInput
      [.read 1, .tick 1, .key 0x1E, .key 0x1C, .key ALT_DOWN, .key F2, .switchStep, .switchStep,
        .switchStep, .switchStep, .key 0x30, .tick 0, .readStep, .readStep, .readStep, .readStep,
        .readStep, .readStep, .readStep]).any
      (fun s => decide (∃ r ∈ s.returned, r.term = 0 ∧ r.count = 1 ∧
        r.buf 0 = some { c := 98, typed := some 1 })) = true := by
    decide +kernel
  obtain ⟨s, hreach, r, hr, hterm, hcount, hbuf⟩ :=
    System.Reachable.exists_of_run sampleInput_init _ hrun
  obtain ⟨c, hc, htyped⟩ := (hall s hreach).1 r hr 0 (by omega)
  rw [hbuf, Option.some.injEq] at hc
  rw [TypedOn, hterm, ← hc] at htyped
  exact absurd htyped (by decide)

end Kernel391
