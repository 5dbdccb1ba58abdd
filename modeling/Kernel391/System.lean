import Kernel391.Lib.TransitionSystem
import Kernel391.Schedule

/-!
# The running kernel

The kernel as a transition system. It starts with the first shell of terminal 0, as
`init_term` leaves it, and then takes operations one at a time: system calls of the running
process, Ctrl+C (`halt` with status 1), terminal switches and timer ticks.

`read`, `write` and `getargs` appear as `io`: what they may change in the program's memory, on
the console and in the drivers, changed to anything. That includes the program's own page and,
through the console, everything on screen and typed. A call with a pointer into the kernel's own
memory is left out: `read`, `getargs` and `vidmap` do not refuse one, and store over PCBs,
terminal records and stacks through it.

Operations are atomic, and what is on the kernel stacks is not part of the state. Where they run
into each other or into a PCB, the kernel here goes on as if nothing had been written over:
`kernel_stacks_isolated` and `frames_kept` say in which runs nothing is.
-/

namespace Kernel391

open TransitionSystem

inductive Event where
  | execute (command : Bytes) (fr : Frame)
  | halt (status : UInt8) (fr frShell : Frame)
  | launch_term (t : TermId) (fr frShell : Frame)
  | tick (fr : Frame)
  | open_file (filename : Option Bytes)
  | close (fd : ℤ)
  | vidmap (screen_start : Word)
  | io (console : Console) (dir_number : ℕ) (page : Bytes) (position : Fd → ℕ) (rtc_freq : ℕ)

/-- New file positions for the running process. -/
def setPositions (position : Fd → ℕ) (k : Kernel) : Kernel :=
  k.modPcb k.cur_pid fun b => { b with
    fd_table := fun fd => { b.fd_table fd with file_position := position fd } }

/-- What the input and output system calls may do with buffers in the program's own memory. The
backup screens do not move. -/
def io_step (console : Console) (dir_number : ℕ) (page : Bytes) (position : Fd → ℕ)
    (rtc_freq : ℕ) (k : Kernel) : Option Kernel :=
  if ∀ t, (console.term t).vid_backup = (k.console.term t).vid_backup then
    let k := setPositions position k
    let k := k.modTerm k.running_term fun i => { i with rtc_freq := rtc_freq }
    some { k with
      console := console
      fs := { k.fs with dir_number := dir_number }
      frame := Function.update k.frame k.cur_pid page }
  else none

/-- One operation, and how it gives up control. -/
def step (m : Machine) (k : Kernel) : Event → Option (Kernel × Outcome)
  | .execute command fr => execute_func m (.process k.cur_pid) command fr k
  | .halt status fr frShell => halt_func m status fr frShell k
  | .launch_term t fr frShell => launch_term m t fr frShell k
  | .tick fr => (pit_interrupt_handler m fr k).map fun k => (k, .ret 0)
  | .open_file filename => some ((open_func m filename k).1, .ret (open_func m filename k).2)
  | .close fd => (close_func fd k).map fun (k, r) => (k, .ret r)
  | .vidmap screen_start => (vidmap_func m screen_start k).map fun (k, r) => (k, .ret r)
  | .io console dir_number page position rtc_freq =>
    (io_step console dir_number page position rtc_freq k).map fun k => (k, .ret 0)

section
variable {m : Machine} {k k' : Kernel} {out : Outcome}

theorem step_tick {fr : Frame} (h : step m k (.tick fr) = some (k', out)) :
    pit_interrupt_handler m fr k = some k' ∧ out = .ret 0 := by
  rw [step, Option.map_eq_some_iff] at h
  obtain ⟨k₁, htick, heq⟩ := h
  rw [Prod.mk.injEq] at heq
  exact ⟨heq.1 ▸ htick, heq.2.symm⟩

theorem step_close {fd : ℤ} (h : step m k (.close fd) = some (k', out)) :
    ∃ r, close_func fd k = some (k', r) ∧ out = .ret r := by
  rw [step, Option.map_eq_some_iff] at h
  obtain ⟨⟨k₁, r⟩, hclose, heq⟩ := h
  rw [Prod.mk.injEq] at heq
  exact ⟨r, heq.1 ▸ hclose, heq.2.symm⟩

theorem step_vidmap {ptr : Word} (h : step m k (.vidmap ptr) = some (k', out)) :
    ∃ r, vidmap_func m ptr k = some (k', r) ∧ out = .ret r := by
  rw [step, Option.map_eq_some_iff] at h
  obtain ⟨⟨k₁, r⟩, hvid, heq⟩ := h
  rw [Prod.mk.injEq] at heq
  exact ⟨r, heq.1 ▸ hvid, heq.2.symm⟩

theorem step_io {console : Console} {dir_number : ℕ} {page : Bytes} {position : Fd → ℕ}
    {rtc_freq : ℕ} (h : step m k (.io console dir_number page position rtc_freq) = some (k', out)) :
    io_step console dir_number page position rtc_freq k = some k' ∧ out = .ret 0 := by
  rw [step, Option.map_eq_some_iff] at h
  obtain ⟨k₁, hio, heq⟩ := h
  rw [Prod.mk.injEq] at heq
  exact ⟨heq.1 ▸ hio, heq.2.symm⟩

end

/-! ## Start -/

/-- What memory holds when the kernel boots, where the kernel does not initialise it. -/
structure BootMemory where
  pcb : Pid → Pcb
  paging : Paging
  console : Console
  frame : Pid → Bytes
  fs : FsGlobals

/-- The kernel when `init_term` calls `execute`. -/
def boot (m : Machine) (mem : BootMemory) : Kernel where
  pid_array _ := false
  cur_pid := 0
  pcb := mem.pcb
  term t :=
    { term_id := t, running_pid := none, ss0 := 0, esp0 := 0, rtc_freq := MAX_RTC_FREQ }
  curr_term := 0
  running_term := 0
  tss := { ss0 := KERNEL_DS, esp0 := 0x800000 }
  paging := set_up_PD_PT m.layout mem.paging
  console := init_term_console mem.console
  fs := mem.fs
  frame := mem.frame
  intf := true

/-- The first shell has just been started. -/
def Started (m : Machine) (mem : BootMemory) (k : Kernel) : Prop :=
  ∃ fr e, execute_func m .kernel m.shell fr (boot m mem) = some (k, .enterUser e)

/-- The kernel of machine `m`, booted with any memory contents that satisfy `B`. -/
def system (m : Machine) (B : BootMemory → Prop) : System Kernel Event where
  init k := ∃ mem, B mem ∧ Started m mem k
  step k e := (step m k e).map Prod.fst

/-- States of the running kernel. -/
def Reachable (m : Machine) (k : Kernel) : Prop := (system m fun _ => True).Reachable k

/-- States reached by operations that all meet `ok`. -/
def ReachableWhere (m : Machine) (ok : Kernel → Event → Prop) (k : Kernel) : Prop :=
  (system m fun _ => True).ReachableWhere ok k

theorem ReachableWhere.reachable {m : Machine} {ok : Kernel → Event → Prop} {k : Kernel}
    (h : ReachableWhere m ok k) : Reachable m k :=
  System.ReachableWhere.reachable h

/-- What is known of memory at boot only narrows the states down. -/
theorem reachable_of_boot {m : Machine} {B : BootMemory → Prop} {ok : Kernel → Event → Prop}
    {k : Kernel} (h : (system m B).ReachableWhere ok k) : Reachable m k := by
  induction h with
  | init h0 =>
    obtain ⟨mem, -, hstart⟩ := h0
    exact System.Reachable.init ⟨mem, trivial, hstart⟩
  | step _ _ hs ih => exact System.Reachable.step ih hs

theorem system_step_iff {m : Machine} {B : BootMemory → Prop} {k k' : Kernel} {e : Event} :
    (system m B).step k e = some k' ↔ ∃ out, step m k e = some (k', out) := by
  simp only [system, Option.map_eq_some_iff]
  constructor
  · rintro ⟨⟨k', out⟩, h, rfl⟩
    exact ⟨out, h⟩
  · rintro ⟨out, h⟩
    exact ⟨(k', out), h, rfl⟩

end Kernel391
