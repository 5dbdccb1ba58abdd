import Kernel391.CommandTheorems
import Kernel391.Lib.Traced
import Kernel391.LineInput

/-!
# Critical sections

`halt_func` and `launch_term` are run here statement by statement, and the state after each
is noted up to the `sti` that ends the section: these are the states an interrupt would find.
With the notes left out the two are the functions of the model (`result_halt_funcTraced`,
`result_launch_termTraced`). Both clear keyboard buffers on their way, and the routines that do
so end with a `sti` of their own (`critical_sections_closed_iff`).
-/

namespace Kernel391

open Trace

/-! ## Statements -/

/-- Run a statement, and note the state it leaves. -/
def statement (f : Kernel → Kernel) (k : Kernel) : Traced Kernel Kernel := do
  Traced.emit (f k)
  pure (f k)

@[simp] theorem result_statement (f : Kernel → Kernel) (k : Kernel) :
    (statement f k).result = some (f k) := rfl

@[simp] theorem always_statement {P : Kernel → Prop} {f : Kernel → Kernel} {k : Kernel} :
    Traced.Always P (statement f k) ↔ P (f k) := by
  unfold statement
  rw [Traced.always_bind, Traced.always_emit, and_iff_left]
  exact fun _ _ => Traced.always_pure _

/-! ## The functions, statement by statement -/

def clear_keyboard_bufferTraced (k : Kernel) : Traced Kernel Kernel := do
  let k ← statement Kernel.cli k
  let k ← statement (fun k => k.modConsole clear_keyboard_buffer) k
  statement Kernel.sti k

def clear_keyboard_backupTraced (t : TermId) (k : Kernel) : Traced Kernel Kernel := do
  let k ← statement Kernel.cli k
  let k ← statement (fun k => k.modConsole (clear_keyboard_backup t)) k
  statement Kernel.sti k

/-- `save_term_info` up to the call of `clear_keyboard_backup`. -/
def recordCursor (old_term : TermId) (s : Console) : Console :=
  s.modTerm old_term fun i => { i with
    cursor_x := UInt32.ofInt s.screen_x
    cursor_y := UInt32.ofInt s.screen_y
    cursor_location := s.current_location
    len_key_buf := s.length_key }

def switch_terminalTraced (old_term new_term : TermId) (k : Kernel) : Traced Kernel Kernel := do
  let k ← statement (fun k => k.modConsole (recordCursor old_term)) k
  let k ← clear_keyboard_backupTraced old_term k
  let k ← statement (fun k => k.modConsole (saveLine old_term)) k
  let k ← clear_keyboard_bufferTraced k
  statement (fun k => k.modConsole (restore_term_info new_term)) k

/-- First part of `halt_func`. The PCB to be halted is not followed yet, so there need not be
one. -/
def halt_targetTraced (status : UInt8) (fr : Frame) (k : Kernel) :
    Traced Kernel (Option Pid × TermId × Kernel) :=
  if status = 1 then do
    let cur_pcb := k.running_pid k.curr_term
    let halt_term := k.curr_term
    let k ←
      if k.running_term ≠ halt_term then do
        let running ← Traced.ofOption (k.running_pid k.running_term)
        let k ← statement (saveContext running fr) k
        let k ← statement (fun k => k.modTerm k.running_term fun i => { i with
          esp0 := k.tss.esp0, ss0 := k.tss.ss0 }) k
        statement (fun k => { k with running_term := halt_term }) k
      else pure k
    let k ← clear_keyboard_bufferTraced k
    pure (cur_pcb, halt_term, k)
  else do
    let cur_pcb := k.cur_pid
    let halt_term := (k.pcb k.cur_pid).term_id
    let k ←
      if halt_term ≠ k.curr_term then clear_keyboard_backupTraced halt_term k
      else clear_keyboard_bufferTraced k
    pure (some cur_pcb, halt_term, k)

/-- The `close` system calls. The trap gate leaves the interrupt flag alone, and so does
`close`. -/
def close_filesTraced (victim : Pid) : List Fd → Kernel → Traced Kernel Kernel
  | [], k => pure k
  | fd :: fds, k => do
    let k' ← Traced.ofOption (closeOne victim k fd)
    let k' ← statement (fun _ => k') k
    close_filesTraced victim fds k'

/-- A new shell in the place of the last process of its terminal. -/
def replace_shellTraced (m : Machine) (halt_term : TermId) (frShell : Frame) (k : Kernel) :
    Traced Kernel (Kernel × Outcome) := do
  let k ← statement (fun k => k.modTerm halt_term fun i => { i with running_pid := none }) k
  let r ← Traced.ofOption (execute_func m .kernel m.shell frShell k)
  match r.2 with
  | .enterUser e => pure (r.1, .enterUser e)
  | _ => do
    -- back from `execute`, the null pointer is followed
    let _ ← statement (fun _ => r.1) k
    Traced.ofOption none

def return_to_parentTraced (status : UInt8) (victim parent : Pid) (halt_term : TermId)
    (k : Kernel) : Traced Kernel (Kernel × Outcome) := do
  let parent_pid := (k.pcb parent).pid
  let k ← statement (fun k => k.modTerm halt_term fun i => { i with
    running_pid := some parent_pid }) k
  let k ← statement (fun k => k.modPaging (remap _128MB (_8MB + parent_pid * _4MB))) k
  let b := k.pcb victim
  let k ← statement (fun k => { k with tss := { k.tss with esp0 := b.esp } }) k
  let k ← statement (fun k => { k with cur_pid := parent_pid }) k
  pure (k.sti, .resume b.caller b.esp b.ebp status.toNat)

/-- `halt_func` up to its last `sti`. -/
def halt_funcTraced (m : Machine) (status : UInt8) (fr frShell : Frame) (k : Kernel) :
    Traced Kernel (Kernel × Outcome) := do
  let k ← statement Kernel.cli k
  let target ← halt_targetTraced status fr k
  let victim ← Traced.ofOption target.1
  let halt_term := target.2.1
  let k := target.2.2
  let parent_pcb := (k.pcb victim).parent
  let k ← statement (fun k => { k with
    pid_array := Function.update k.pid_array (k.pcb victim).pid false }) k
  let k ← close_filesTraced victim (List.finRange MAX_FILES) k
  match parent_pcb with
  | none => replace_shellTraced m halt_term frShell k
  | some parent => return_to_parentTraced status victim parent halt_term k

/-- `launch_term` up to its last `sti`. -/
def launch_termTraced (m : Machine) (term_id : TermId) (fr frShell : Frame) (k : Kernel) :
    Traced Kernel (Kernel × Outcome) := do
  let k ← statement Kernel.cli k
  if term_id = k.curr_term then pure (k.sti, .ret 0)
  else
    match k.running_pid term_id with
    | none => do
      let k ← switch_terminalTraced k.curr_term term_id k
      let old_pcb ← Traced.ofOption (k.running_pid k.running_term)
      let k ← statement (fun k => { k with curr_term := term_id }) k
      let k ← statement (saveContext old_pcb fr) k
      let r ← Traced.ofOption (execute_func m .kernel m.shell frShell k.sti)
      pure (r.1, match r.2 with
        | .enterUser e => .enterUser e
        | _ => .ret 0)
    | some _ => do
      let k ← switch_terminalTraced k.curr_term term_id k
      let k ← statement (fun k => { k with curr_term := term_id }) k
      let k ← statement (vidmap m) k
      let k ←
        if k.running_term ≠ k.curr_term then
          statement (fun k => k.modPaging
            (remap_vid m.layout _132MB (k.console.term k.running_term).vid_backup)) k
        else pure k
      pure (k.sti, .ret 0)

/-! ## They are the functions of the model -/

section
variable (m : Machine) (k : Kernel)

theorem result_clear_keyboard_bufferTraced :
    (clear_keyboard_bufferTraced k).result = some (k.modConsole clear_keyboard_buffer).sti := rfl

theorem result_clear_keyboard_backupTraced (t : TermId) :
    (clear_keyboard_backupTraced t k).result =
      some (k.modConsole (clear_keyboard_backup t)).sti := rfl

theorem result_switch_terminalTraced (old_term new_term : TermId) :
    (switch_terminalTraced old_term new_term k).result =
      some (k.modConsole (switch_terminal old_term new_term)).sti := by
  have hcursor : ∀ s, saveCursor old_term s =
      clear_keyboard_backup old_term (recordCursor old_term s) := fun _ => rfl
  unfold switch_terminalTraced
  simp only [Traced.result_bind, result_statement, result_clear_keyboard_backupTraced,
    result_clear_keyboard_bufferTraced, Option.bind_some, Kernel.modConsole, Kernel.sti,
    switch_terminal_eq, hcursor]

theorem result_launch_termTraced (t : TermId) (fr frShell : Frame) :
    (launch_termTraced m t fr frShell k).result = launch_term m t fr frShell k := by
  unfold launch_termTraced launch_term
  rw [Traced.result_bind, result_statement, Option.bind_some]
  dsimp only
  by_cases ht : t = k.cli.curr_term
  · rw [if_pos ht, if_pos ht, Traced.result_pure]
  rw [if_neg ht, if_neg ht]
  cases k.cli.running_pid t with
  | none =>
    dsimp only
    rw [Traced.result_bind, result_switch_terminalTraced, Option.bind_some]
    simp only [Traced.result_bind, Traced.result_ofOption, result_statement, Option.bind_some,
      Traced.result_pure]
    rfl
  | some p =>
    dsimp only
    rw [Traced.result_bind, result_switch_terminalTraced, Option.bind_some]
    simp only [Traced.result_bind, result_statement, Option.bind_some, Traced.result_pure,
      Traced.result_ite]
    split_ifs with hrun hrun' hrun'
    · rfl
    · exact absurd hrun hrun'
    · exact absurd hrun' hrun
    · rfl

/-- The target found is the one of the model, with interrupts enabled. -/
theorem result_halt_targetTraced (status : UInt8) (fr : Frame) :
    ((halt_targetTraced status fr k).result.bind fun r => r.1.map fun v => (v, r.2)) =
      (halt_target status fr k).map fun r => (r.1, r.2.1, r.2.2.sti) := by
  unfold halt_targetTraced halt_target
  by_cases hs : status = 1
  · rw [if_pos hs, if_pos hs]
    dsimp only
    by_cases hrun : k.running_term ≠ k.curr_term
    · simp only [if_pos hrun, Traced.result_bind, Traced.result_ofOption, result_statement,
        result_clear_keyboard_bufferTraced, Option.bind_some, Traced.result_pure]
      cases k.running_pid k.running_term with
      | none =>
        cases k.running_pid k.curr_term <;> rfl
      | some running =>
        cases k.running_pid k.curr_term <;> rfl
    · simp only [if_neg hrun, Traced.result_bind, Traced.result_pure,
        result_clear_keyboard_bufferTraced, Option.bind_some]
      cases k.running_pid k.curr_term <;> rfl
  · rw [if_neg hs, if_neg hs]
    dsimp only
    split_ifs
    · rfl
    · rfl

variable {k} in
theorem result_halt_targetTraced_of_some {status : UInt8} {fr : Frame} {victim : Pid}
    {t : TermId} {k₁ : Kernel} (h : halt_target status fr k = some (victim, t, k₁)) :
    (halt_targetTraced status fr k).result = some (some victim, t, k₁.sti) := by
  have htarget := result_halt_targetTraced k status fr
  rw [h, Option.map_some, Option.bind_eq_some_iff] at htarget
  obtain ⟨⟨cur_pcb, t', k₁'⟩, htraced, heq⟩ := htarget
  obtain ⟨v, rfl, heq⟩ := Option.map_eq_some_iff.mp heq
  rw [htraced]
  exact congrArg (fun r => some (some r.1, r.2)) heq

variable {k} in
theorem result_halt_targetTraced_of_none {status : UInt8} {fr : Frame}
    (h : halt_target status fr k = none) :
    (halt_targetTraced status fr k).result = none ∨
      ∃ r, (halt_targetTraced status fr k).result = some (none, r) := by
  have htarget := result_halt_targetTraced k status fr
  rw [h, Option.map_none] at htarget
  cases htraced : (halt_targetTraced status fr k).result with
  | none => exact Or.inl rfl
  | some r =>
    obtain ⟨cur_pcb, r⟩ := r
    rw [htraced, Option.bind_some, Option.map_eq_none_iff] at htarget
    exact Or.inr ⟨r, congrArg (fun o => some (o, r)) htarget⟩

theorem result_close_filesTraced (victim : Pid) (fds : List Fd) :
    (close_filesTraced victim fds k).result = fds.foldlM (closeOne victim) k := by
  induction fds generalizing k with
  | nil => rfl
  | cons fd fds ih =>
    rw [close_filesTraced, List.foldlM_cons, Traced.result_bind, Traced.result_ofOption]
    cases closeOne victim k fd with
    | none => rfl
    | some k' =>
      rw [Option.bind_some, Traced.result_bind, result_statement, Option.bind_some, ih]
      rfl

/-- The flag makes no difference to the loop. -/
theorem close_files_sti (victim : Pid) :
    close_files victim k.sti = (close_files victim k).map Kernel.sti := by
  rw [close_files_eq, close_files_eq]
  have hsame : (∃ fd, ((k.sti.pcb victim).fd_table fd).flags = true ∧ CloseFaults k.sti fd) ↔
      ∃ fd, ((k.pcb victim).fd_table fd).flags = true ∧ CloseFaults k fd := Iff.rfl
  by_cases hbad : ∃ fd, ((k.pcb victim).fd_table fd).flags = true ∧ CloseFaults k fd
  · rw [if_pos hbad, if_pos (hsame.mpr hbad)]
    rfl
  · rw [if_neg hbad, if_neg (mt hsame.mp hbad)]
    rfl

/-- Nor does it to `execute`, which begins with a `cli`, and to the return to the parent, which
ends with a `sti`. -/
theorem execute_func_sti (caller : Caller) (command : Bytes) (fr : Frame) :
    execute_func m caller command fr k.sti = execute_func m caller command fr k := rfl

theorem result_return_to_parentTraced (status : UInt8) (victim parent : Pid) (t : TermId) :
    (return_to_parentTraced status victim parent t k.sti).result =
      some (return_to_parent status victim parent t k) := rfl

/-- Last part of `halt_func`, for a process without a parent. -/
def replace_shell (t : TermId) (frShell : Frame) : Option (Kernel × Outcome) :=
  match execute_func m .kernel m.shell frShell
      (k.modTerm t fun i => { i with running_pid := none }) with
  | some (k, .enterUser e) => some (k, .enterUser e)
  | _ => none

theorem result_replace_shellTraced (t : TermId) (frShell : Frame) :
    (replace_shellTraced m t frShell k.sti).result = replace_shell m k t frShell := by
  unfold replace_shellTraced replace_shell
  rw [Traced.result_bind, result_statement, Option.bind_some, Traced.result_bind,
    Traced.result_ofOption]
  show Option.bind (execute_func m .kernel m.shell frShell
    (k.modTerm t fun i => { i with running_pid := none }).sti) _ = _
  rw [execute_func_sti]
  cases execute_func m .kernel m.shell frShell
      (k.modTerm t fun i => { i with running_pid := none }) with
  | none => rfl
  | some r =>
    obtain ⟨k', out⟩ := r
    cases out <;> rfl

theorem result_halt_funcTraced (status : UInt8) (fr frShell : Frame) :
    (halt_funcTraced m status fr frShell k).result = halt_func m status fr frShell k := by
  unfold halt_funcTraced halt_func
  rw [Traced.result_bind, result_statement, Option.bind_some, Traced.result_bind]
  cases hfound : halt_target status fr k.cli with
  | none =>
    rcases result_halt_targetTraced_of_none hfound with hnone | ⟨r, hnone⟩
    · rw [hnone]
      rfl
    · rw [hnone]
      rfl
  | some found =>
    obtain ⟨victim, t, k₁⟩ := found
    rw [result_halt_targetTraced_of_some hfound, Option.bind_some, Traced.result_bind,
      Traced.result_ofOption, Option.bind_some, Traced.result_bind, result_statement,
      Option.bind_some, Traced.result_bind, result_close_filesTraced]
    have hfiles := close_files_sti
      { k₁ with pid_array := Function.update k₁.pid_array (k₁.pcb victim).pid false } victim
    show Option.bind (close_files victim (Kernel.sti
      { k₁ with pid_array := Function.update k₁.pid_array (k₁.pcb victim).pid false })) _ = _
    rw [hfiles]
    simp only [Option.bind_eq_bind, Option.bind_some]
    cases close_files victim
        { k₁ with pid_array := Function.update k₁.pid_array (k₁.pcb victim).pid false } with
    | none => rfl
    | some k₂ =>
      rw [Option.map_some, Option.bind_some, Option.bind_some]
      rw [show (k₁.sti.pcb victim).parent = (k₁.pcb victim).parent from rfl]
      cases (k₁.pcb victim).parent with
      | none => exact result_replace_shellTraced m k₂ t frShell
      | some parent => exact result_return_to_parentTraced k₂ status victim parent t

end

/-! ## The interrupt flag -/

/-- No interrupt is taken in this state. -/
def Closed (k : Kernel) : Prop := k.intf = false

/-- Ctrl+C with a running terminal that is neither on display nor has a process, which no run comes
to (`process_forest`): the store to the PCB of process 255, at address 0, faults before a keyboard
buffer is cleared, as long as page 0 is not mapped. -/
def FaultsFirst (status : UInt8) (k : Kernel) : Prop :=
  status = 1 ∧ k.running_term ≠ k.curr_term ∧ k.running_pid k.running_term = none

instance (status : UInt8) (k : Kernel) : Decidable (FaultsFirst status k) := by
  unfold FaultsFirst
  infer_instance

section
variable {m : Machine} {k : Kernel}

/-- The `sti` of a routine opens the section of its caller. -/
theorem clear_keyboard_buffer_opens :
    ¬ Traced.Always Closed (clear_keyboard_bufferTraced k) := by
  intro h
  unfold clear_keyboard_bufferTraced at h
  simp only [Traced.always_bind, result_statement, Option.some.injEq, forall_eq',
    always_statement] at h
  cases h.2.2

theorem clear_keyboard_backup_opens {t : TermId} :
    ¬ Traced.Always Closed (clear_keyboard_backupTraced t k) := by
  intro h
  unfold clear_keyboard_backupTraced at h
  simp only [Traced.always_bind, result_statement, Option.some.injEq, forall_eq',
    always_statement] at h
  cases h.2.2

theorem switch_terminal_opens {old_term new_term : TermId} :
    ¬ Traced.Always Closed (switch_terminalTraced old_term new_term k) := by
  intro h
  unfold switch_terminalTraced at h
  rw [Traced.always_bind] at h
  have hrest := h.2 _ rfl
  rw [Traced.always_bind] at hrest
  exact clear_keyboard_backup_opens hrest.1

/-- Every path to the victim clears a buffer. -/
theorem halt_target_closed_iff {status : UInt8} {fr : Frame} :
    Traced.Always Closed (halt_targetTraced status fr k) ↔ FaultsFirst status k := by
  unfold halt_targetTraced FaultsFirst
  by_cases hs : status = 1
  · rw [if_pos hs, and_iff_right hs]
    dsimp only
    by_cases hrun : k.running_term ≠ k.curr_term
    · rw [if_pos hrun, and_iff_right hrun]
      cases hpid : k.running_pid k.running_term with
      | none => exact iff_of_true (fun e he => absurd he List.not_mem_nil) rfl
      | some running =>
        refine iff_of_false (fun h => ?_) (by simp)
        simp only [Traced.always_bind, Traced.result_ofOption, result_statement,
          Option.some.injEq, forall_eq'] at h
        exact clear_keyboard_buffer_opens h.2.2.2.2.1
    · refine iff_of_false (fun h => ?_) fun h => hrun h.1
      rw [if_neg hrun, Traced.always_bind] at h
      have hrest := h.2 _ rfl
      rw [Traced.always_bind] at hrest
      exact clear_keyboard_buffer_opens hrest.1
  · rw [if_neg hs]
    refine iff_of_false (fun h => ?_) fun h => hs h.1
    dsimp only at h
    by_cases hterm : (k.pcb k.cur_pid).term_id ≠ k.curr_term
    · rw [if_pos hterm, Traced.always_bind] at h
      exact clear_keyboard_backup_opens h.1
    · rw [if_neg hterm, Traced.always_bind] at h
      exact clear_keyboard_buffer_opens h.1

theorem halt_func_closed_iff {status : UInt8} {fr frShell : Frame} :
    Traced.Always Closed (halt_funcTraced m status fr frShell k) ↔ FaultsFirst status k := by
  unfold halt_funcTraced
  rw [Traced.always_bind, always_statement, and_iff_right (show Closed k.cli from rfl)]
  simp only [result_statement, Option.some.injEq, forall_eq']
  rw [Traced.always_bind, halt_target_closed_iff]
  refine and_iff_left_of_imp fun hfault target htarget => ?_
  -- the target is not found, and nothing more happens
  obtain ⟨hs, hrun, hpid⟩ := hfault
  unfold halt_targetTraced at htarget
  rw [if_pos hs] at htarget
  dsimp only at htarget
  rw [if_pos hrun, hpid] at htarget
  cases htarget

theorem launch_term_closed_iff {t : TermId} {fr frShell : Frame} :
    Traced.Always Closed (launch_termTraced m t fr frShell k) ↔ t = k.curr_term := by
  unfold launch_termTraced
  rw [Traced.always_bind, always_statement, and_iff_right (show Closed k.cli from rfl)]
  simp only [result_statement, Option.some.injEq, forall_eq']
  by_cases ht : t = k.curr_term
  · rw [if_pos (show t = k.cli.curr_term from ht)]
    exact iff_of_true (Traced.always_pure _) ht
  · rw [if_neg (show ¬ t = k.cli.curr_term from ht)]
    refine iff_of_false (fun h => ?_) ht
    cases hpid : k.cli.running_pid t with
    | none =>
      rw [hpid] at h
      dsimp only at h
      rw [Traced.always_bind] at h
      exact switch_terminal_opens h.1
    | some p =>
      rw [hpid] at h
      dsimp only at h
      rw [Traced.always_bind] at h
      exact switch_terminal_opens h.1

end

/-- The section of `halt` stays closed only if it ends in a fault, and that of `launch_term`
only if there is nothing to do. -/
theorem critical_sections_closed_iff (m : Machine) (status : UInt8) (t : TermId)
    (fr frShell : Frame) (k : Kernel) :
    (Traced.Always Closed (halt_funcTraced m status fr frShell k) ↔ FaultsFirst status k) ∧
      (Traced.Always Closed (launch_termTraced m t fr frShell k) ↔ t = k.curr_term) :=
  ⟨halt_func_closed_iff, launch_term_closed_iff⟩

/-- The first shell halts. -/
theorem critical_sections_open :
    ¬ ∀ (m : Machine) (status : UInt8) (t : TermId) (fr frShell : Frame) (k : Kernel),
      Traced.Always Closed (halt_funcTraced m status fr frShell k) ∧
        Traced.Always Closed (launch_termTraced m t fr frShell k) := by
  intro h
  have hopen : (halt_funcTraced sampleMachine 0 sampleFrame sampleFrame sampleKernel).events.any
      Kernel.intf = true := by decide +kernel
  obtain ⟨k, hmem, hflag⟩ := List.any_eq_true.mp hopen
  have hclosed : k.intf = false := (h _ _ 0 _ _ _).1 k hmem
  rw [hclosed] at hflag
  cases hflag

end Kernel391
