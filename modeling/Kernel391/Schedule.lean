import Kernel391.Process

/-!
# Terminals and the scheduler (`terminal.c`, `pit.c`)

`launch_term` puts a terminal on display, and starts a shell on one that has no process
yet. The timer interrupt gives the processor to the next terminal that has a process.
-/

namespace Kernel391

/-- Display terminal `term_id`. `fr` is the frame of `launch_term` and `frShell` that of
the `execute` call it makes for a terminal without a process. -/
def launch_term (m : Machine) (term_id : TermId) (fr frShell : Frame) (k : Kernel) :
    Option (Kernel × Outcome) :=
  let k := k.cli
  if term_id = k.curr_term then some (k.sti, .ret 0)
  else
    match k.running_pid term_id with
    | none => do
      let k := k.modConsole (switch_terminal k.curr_term term_id)
      -- `tss.esp0` is not saved in the record of the terminal left
      let old_pcb ← k.running_pid k.running_term
      let k := { k with curr_term := term_id }
      let k := saveContext old_pcb fr k
      let (k, out) ← execute_func m .kernel m.shell frShell k.sti
      some (k, match out with
        | .enterUser e => .enterUser e
        | _ => .ret 0)
    | some _ =>
      let k := k.modConsole (switch_terminal k.curr_term term_id)
      let k := { k with curr_term := term_id }
      -- the running process draws on its own screen, displayed or not
      let k := vidmap m k
      let k :=
        if k.running_term ≠ k.curr_term then
          k.modPaging (remap_vid m.layout _132MB (k.console.term k.running_term).vid_backup)
        else k
      some (k.sti, .ret 0)

/-- The next terminal with a process, searched from the one after `running_term`, and that
process. The search ends at `running_term` itself. -/
def get_next_process (k : Kernel) : TermId × Option Pid :=
  let next (t : TermId) : TermId := t + 1
  let t1 := next k.running_term
  let t2 := next t1
  let t3 := next t2
  let next_term :=
    if k.running_pid t1 ≠ none then t1 else if k.running_pid t2 ≠ none then t2 else t3
  (next_term, k.running_pid next_term)

/-- Switch to `process` on `next_term`. The new terminal's record is copied before the
running one's is saved. -/
def schedule (m : Machine) (next_term : TermId) (process : Pid) (fr : Frame) (k : Kernel) :
    Option Kernel := do
  let k := vidmap m k
  let new_terminal := k.term next_term
  let k :=
    if new_terminal.term_id ≠ k.curr_term then
      k.modPaging (remap_vid m.layout _132MB (k.console.term next_term).vid_backup)
    else k
  let k := k.modTerm k.running_term fun i => { i with esp0 := k.tss.esp0, ss0 := k.tss.ss0 }
  -- context switch
  let curr ← k.running_pid k.running_term
  let k := saveContext curr fr k
  let k := { k with running_term := next_term }
  let k := k.modPaging (remap _128MB (_8MB + process * _4MB))
  some { k with
    tss := { ss0 := new_terminal.ss0, esp0 := new_terminal.esp0 }, cur_pid := process }

/-- The timer interrupt. With only terminal 0 in use there is nothing to switch to. -/
def pit_interrupt_handler (m : Machine) (fr : Frame) (k : Kernel) : Option Kernel := do
  let k := k.cli
  let k ←
    if k.running_pid 1 ≠ none ∨ k.running_pid 2 ≠ none then do
      let (next_term, next_process) := get_next_process k
      schedule m next_term (← next_process) fr k
    else some k
  some k.sti

end Kernel391
