import Kernel391.Arguments
import Kernel391.Buffers
import Kernel391.Descriptors
import Kernel391.FileCalls

/-!
# Descriptors 0 and 1

A program never opens its keyboard and its screen, and never looks whether it has them:
`init_pcb` sets the two descriptors up, and nothing that any process does afterwards takes
them away (`standard_streams`). Not even Ctrl+C does, which closes files of the wrong process.
Only a system call with a pointer into the kernel's memory could, and those are not followed.
-/

namespace Kernel391

open TransitionSystem

/-- Descriptor 0 is the keyboard, descriptor 1 the screen. -/
structure OnConsole (table : Fd → FileDesc) : Prop where
  keyboard : (table 0).flags = true ∧ (table 0).op_table_ptr = .stdin
  screen : (table 1).flags = true ∧ (table 1).op_table_ptr = .stdout

/-- Every process in use has them. -/
def AllOnConsole (k : Kernel) : Prop :=
  ∀ p, k.pid_array p = true → OnConsole (k.pcb p).fd_table

section
variable {m : Machine} {k k' : Kernel} {out : Outcome}

/-- The table changes from descriptor 2 on only. -/
theorem OnConsole.congr {table table' : Fd → FileDesc} (h : OnConsole table)
    (hlow : ∀ fd : Fd, fd.val < 2 → (table' fd).flags = (table fd).flags ∧
      (table' fd).op_table_ptr = (table fd).op_table_ptr) : OnConsole table' := by
  obtain ⟨hflag0, htable0⟩ := hlow 0 (by decide)
  obtain ⟨hflag1, htable1⟩ := hlow 1 (by decide)
  refine ⟨⟨?_, ?_⟩, ?_, ?_⟩
  · rw [hflag0]
    exact h.keyboard.1
  · rw [htable0]
    exact h.keyboard.2
  · rw [hflag1]
    exact h.screen.1
  · rw [htable1]
    exact h.screen.2

theorem newPcb_onConsole (caller : Caller) (x : Executable) (p : Pid) (fr : Frame) (k : Kernel) :
    OnConsole (newPcb caller x p fr k).fd_table := by
  unfold newPcb
  exact ⟨⟨rfl, rfl⟩, rfl, rfl⟩

/-- The processes that are in use afterwards were so before, with the same low descriptors. -/
theorem AllOnConsole.congr (h : AllOnConsole k)
    (hused : ∀ p, k'.pid_array p = true → k.pid_array p = true)
    (hlow : ∀ p, k'.pid_array p = true → ∀ fd : Fd, fd.val < 2 →
      ((k'.pcb p).fd_table fd).flags = ((k.pcb p).fd_table fd).flags ∧
        ((k'.pcb p).fd_table fd).op_table_ptr = ((k.pcb p).fd_table fd).op_table_ptr) :
    AllOnConsole k' :=
  fun p hp => (h p (hused p hp)).congr (hlow p hp)

theorem execute_func_allOnConsole {caller : Caller} {command : Bytes} {fr : Frame}
    (h : AllOnConsole k) (hex : execute_func m caller command fr k = some (k', out)) :
    AllOnConsole k' := by
  rcases execute_func_cases hex with ⟨fs, -, -, rfl⟩ | ⟨x, -, -, -, console, -, rfl⟩ |
    ⟨x, p, -, -, -, -, frame, console, -, rfl⟩
  · exact h
  · exact h
  · intro q hq
    by_cases hqp : q = p
    · rw [hqp, started_pcb_self]
      exact newPcb_onConsole _ _ _ _ _
    · rw [started_pcb_of_ne _ _ _ _ _ _ _ _ hqp]
      have hslot : Function.update k.pid_array p true q = true := hq
      rw [Function.update_of_ne hqp] at hslot
      exact h q hslot

/-- Closing the files that `victim` has open leaves the low descriptors of everyone alone. -/
theorem closedTables_low (victim q : Pid) {fd : Fd} (hfd : fd.val < 2) :
    closedTables victim k q fd = (k.pcb q).fd_table fd := by
  unfold closedTables
  by_cases hq : q = k.cur_pid
  · rw [if_pos hq, hq]
    exact if_neg fun h => absurd h.1 (by omega)
  · rw [if_neg hq]

theorem released_allOnConsole {status : UInt8} {fr : Frame} {k₁ : Kernel} {victim : Pid}
    {t : TermId} (h : AllOnConsole k)
    (htarget : halt_target status fr k.cli = some (victim, t, k₁)) :
    AllOnConsole (released victim k₁) := by
  have harray : k₁.pid_array = k.pid_array := (halt_target_arguments htarget).2.1
  refine h.congr (fun q hq => ?_) fun q _ fd hfd => ?_
  · rw [← harray]
    exact (released_arguments victim k₁).2 q hq
  · rw [released_target_tables htarget, closedTables_low victim q hfd]
    exact ⟨rfl, rfl⟩

theorem halt_func_allOnConsole {status : UInt8} {fr frShell : Frame} (h : AllOnConsole k)
    (hs : halt_func m status fr frShell k = some (k', out)) : AllOnConsole k' := by
  obtain ⟨victim, t, k₁, htarget, -, hend⟩ := halt_func_cases hs
  have hreleased := released_allOnConsole h htarget
  rcases hend with ⟨parent, -, heq⟩ | ⟨-, e, -, hex⟩
  · rw [(Prod.mk.inj heq).1]
    exact hreleased
  · have hvacated : AllOnConsole
        ((released victim k₁).modTerm t fun i => { i with running_pid := none }) := hreleased
    exact execute_func_allOnConsole hvacated hex

theorem launch_term_allOnConsole {t : TermId} {fr frShell : Frame} (h : AllOnConsole k)
    (hs : launch_term m t fr frShell k = some (k', out)) : AllOnConsole k' := by
  rcases launch_term_cases hs with ⟨-, rfl, -⟩ | ⟨-, -, old, -, r, hex, -⟩ | ⟨-, -, rfl, -⟩
  · exact h
  · have hopen : AllOnConsole (opening t old fr k) := by
      refine h.congr (fun q hq => hq) fun q _ fd _ => ?_
      rw [show ((opening t old fr k).pcb q).fd_table = (k.pcb q).fd_table from
        update_field Pcb.fd_table q]
      exact ⟨rfl, rfl⟩
    exact execute_func_allOnConsole hopen hex
  · exact h

theorem tick_allOnConsole {fr : Frame} (hid : ∀ t, (k.term t).term_id = t) (h : AllOnConsole k)
    (hs : pit_interrupt_handler m fr k = some k') : AllOnConsole k' := by
  rcases pit_interrupt_handler_cases hid hs with ⟨-, -, rfl⟩ | ⟨-, t, q, curr, -, -, rfl⟩
  · exact h
  · refine h.congr (fun q hq => hq) fun q _ fd _ => ?_
    rw [show ((switched m t _ curr fr k).pcb q).fd_table = (k.pcb q).fd_table from
      update_field Pcb.fd_table q]
    exact ⟨rfl, rfl⟩

/-- One descriptor of the running process is filled in: a low one as it was, or a higher one. -/
theorem setDesc_allOnConsole {p : Pid} {fd : Fd} {desc : FileDesc} (h : AllOnConsole k)
    (hpcb : k'.pcb = (setDesc p fd desc k).pcb) (harray : k'.pid_array = k.pid_array)
    (hdesc : fd = 0 ∧ desc.flags = true ∧ desc.op_table_ptr = .stdin ∨
      fd = 1 ∧ desc.flags = true ∧ desc.op_table_ptr = .stdout ∨ 2 ≤ fd.val) :
    AllOnConsole k' := by
  refine h.congr (fun q hq => harray ▸ hq) fun q hq i hi => ?_
  have hq' := h q (harray ▸ hq)
  rw [hpcb, setDesc_fd_table]
  by_cases heq : q = p ∧ i = fd
  · rw [if_pos heq, heq.2]
    rcases hdesc with ⟨rfl, hflag, htable⟩ | ⟨rfl, hflag, htable⟩ | hhigh
    · exact ⟨hflag.trans hq'.keyboard.1.symm, htable.trans hq'.keyboard.2.symm⟩
    · exact ⟨hflag.trans hq'.screen.1.symm, htable.trans hq'.screen.2.symm⟩
    · rw [heq.2] at hi
      omega
  · rw [if_neg heq]
    exact ⟨rfl, rfl⟩

theorem open_func_allOnConsole (filename : Option Bytes) (h : AllOnConsole k) :
    AllOnConsole (open_func m filename k).1 := by
  have harray : (open_func m filename k).1.pid_array = k.pid_array :=
    congrArg Links.pid_array (open_func_quiet m filename k).links_eq
  rcases open_func_cases (Prod.eta (open_func m filename k)).symm with ⟨⟨-, hpcb, -⟩, -⟩ |
    ⟨⟨name, rfl, hconsole⟩, -⟩ | ⟨d, fd, hopens, -, hpcb, -⟩
  · refine h.congr (fun q hq => harray ▸ hq) fun q _ fd _ => ?_
    rw [hpcb]
    exact ⟨rfl, rfl⟩
  · -- a console name: descriptor 0 is the keyboard again, or descriptor 1 the screen
    by_cases hin : strncmp name (literal ['s', 't', 'd', 'i', 'n'] fun _ => 0) 5 = 0
    · have hpcb : (open_func m (some name) k).1.pcb = (setDesc k.cur_pid 0
          { (k.pcb k.cur_pid).fd_table 0 with op_table_ptr := .stdin, flags := true } k).pcb := by
        unfold open_func
        dsimp only
        rw [if_pos hin]
      exact setDesc_allOnConsole h hpcb harray (Or.inl ⟨rfl, rfl, rfl⟩)
    · have hpcb : (open_func m (some name) k).1.pcb = (setDesc k.cur_pid 1
          { (k.pcb k.cur_pid).fd_table 1 with op_table_ptr := .stdout, flags := true } k).pcb := by
        unfold open_func
        dsimp only
        rw [if_neg hin, if_pos (hconsole.resolve_left hin)]
      exact setDesc_allOnConsole h hpcb harray (Or.inr (Or.inl ⟨rfl, rfl, rfl⟩))
  · exact setDesc_allOnConsole h hpcb harray (Or.inr (Or.inr hopens.free.1))

theorem close_func_allOnConsole {fd r : ℤ} (h : AllOnConsole k)
    (hs : close_func fd k = some (k', r)) : AllOnConsole k' := by
  rcases close_func_cases hs with ⟨rfl, -⟩ | ⟨i, -, hi, -, rfl⟩
  · exact h
  · refine h.congr (fun q hq => hq) fun q _ fd hfd => ?_
    rw [setFlags_eq_setDesc, setDesc_fd_table, if_neg]
    · exact ⟨rfl, rfl⟩
    · rintro ⟨-, rfl⟩
      omega

/-- A call that leaves the tables as they are, but for positions. -/
theorem allOnConsole_of_positions (h : AllOnConsole k) (harray : k'.pid_array = k.pid_array)
    (hdesc : ∀ q fd, ∃ pos, (k'.pcb q).fd_table fd =
      { (k.pcb q).fd_table fd with file_position := pos }) : AllOnConsole k' := by
  refine h.congr (fun q hq => harray ▸ hq) fun q _ fd _ => ?_
  obtain ⟨pos, hpos⟩ := hdesc q fd
  rw [hpos]
  exact ⟨rfl, rfl⟩

theorem step_allOnConsole {e : Event} (hid : ∀ t, (k.term t).term_id = t) (h : AllOnConsole k)
    (hs : step m k e = some (k', out)) : AllOnConsole k' := by
  cases e with
  | execute command fr => exact execute_func_allOnConsole h hs
  | halt status fr frShell => exact halt_func_allOnConsole h hs
  | launch_term t fr frShell => exact launch_term_allOnConsole h hs
  | tick fr => exact tick_allOnConsole hid h (step_tick hs).1
  | open_file filename =>
    rw [step, Option.some.injEq, Prod.mk.injEq] at hs
    rw [← hs.1]
    exact open_func_allOnConsole filename h
  | close fd =>
    obtain ⟨r, hclose, -⟩ := step_close hs
    exact close_func_allOnConsole h hclose
  | vidmap screen_start =>
    obtain ⟨r, hvid, -⟩ := step_vidmap hs
    unfold vidmap_func at hvid
    split_ifs at hvid
    · rw [Option.some.injEq, Prod.mk.injEq] at hvid
      rw [← hvid.1]
      exact h
    · rw [Option.bind_eq_bind, Option.bind_eq_some_iff] at hvid
      obtain ⟨k₁, hstore, hvid⟩ := hvid
      obtain ⟨paging, console, frame, -, rfl⟩ := storeThrough_memory hstore
      rw [Option.some.injEq, Prod.mk.injEq] at hvid
      rw [← hvid.1]
      exact h
  | io console dir_number page position rtc_freq =>
    obtain ⟨hio, -⟩ := step_io hs
    unfold io_step at hio
    split_ifs at hio
    rw [Option.some.injEq] at hio
    rw [← hio]
    refine allOnConsole_of_positions h rfl fun q fd => ?_
    show ∃ pos, ((setPositions position k).pcb q).fd_table fd = _
    unfold setPositions Kernel.modPcb
    dsimp only
    by_cases hq : q = k.cur_pid
    · rw [hq, Function.update_self]
      exact ⟨_, rfl⟩
    · rw [Function.update_of_ne hq]
      exact ⟨_, rfl⟩

end

theorem allOnConsole_of_reachable {m : Machine} {k : Kernel} (h : Reachable m k) :
    AllOnConsole k := by
  have hsafe : (∃ F, Refines k.links F) ∧ AllOnConsole k := by
    refine System.ReachableWhere.invariant
      (P := fun k => (∃ F, Refines k.links F) ∧ AllOnConsole k) h (fun k h0 => ?_)
      fun k e k' _ hk _ hstep => ?_
    · obtain ⟨mem, -, hstart⟩ := h0
      obtain ⟨p, hF⟩ := started_refines hstart
      obtain ⟨fr, e, hex⟩ := hstart
      have hboot : AllOnConsole (boot m mem) := fun p hp => by cases hp
      exact ⟨⟨_, hF⟩, execute_func_allOnConsole hboot hex⟩
    · obtain ⟨⟨F, hF⟩, hconsole⟩ := hk
      obtain ⟨out, hs⟩ := system_step_iff.mp hstep
      obtain ⟨F', -, hF'⟩ := step_refines hF hs
      exact ⟨⟨F', hF'⟩, step_allOnConsole hF.stacked.number hconsole hs⟩
  exact hsafe.2

end Kernel391
