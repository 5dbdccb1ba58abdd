import Kernel391.Arguments
import Kernel391.Buffers
import Kernel391.ContextSwitch
import Kernel391.Descriptors
import Kernel391.KernelStack

/-!
# One process among others

Between two system calls of a process the timer takes the processor from it, other processes
make calls, start and end, terminals are switched and keys are typed (`OthersStep`). It gets its
own descriptors and its argument back as it left them (`Meanwhile.keeps`).

Three things are left out, because a program does not survive them (`Spares`): Ctrl+C while the
program runs on a terminal that is not on display closes its files; an `execute` from such a
terminal puts the new process on top of the one on display; and an operation that breaks
`KeepsStacks` lets a process enter the kernel on the stack of another.
-/

namespace Kernel391

/-! ## What happens between two calls -/

/-- The operation is not one of process `p`, and does not end it. -/
def NotOf (p : Pid) (k : Kernel) : Event → Prop
  | .launch_term _ _ _ => True
  | .tick _ => True
  | .halt status _ _ => k.cur_pid ≠ p ∧ ∀ t, ¬ HaltTarget status k p t
  | _ => k.cur_pid ≠ p

/-- Nor does it start a program on top of `p` that somebody else has called for, or let another
process onto its kernel stack. -/
def Spares (m : Machine) (p : Pid) (k : Kernel) (e : Event) : Prop :=
  NotOf p k e ∧ ForegroundExecute m k e ∧ KeepsStacks m k e

/-- Something happens that is not a call of `p`: keys are typed, or the kernel takes a step. -/
inductive OthersStep (m : Machine) (p : Pid) : Kernel → Kernel → Prop
  | typed (k : Kernel) (console : Console) : OthersStep m p k { k with console := console }
  | operation {k k' : Kernel} {e : Event} {out : Outcome} :
      Spares m p k e → step m k e = some (k', out) → OthersStep m p k k'

/-- Any number of such things. -/
def Meanwhile (m : Machine) (p : Pid) : Kernel → Kernel → Prop :=
  Relation.ReflTransGen (OthersStep m p)

/-- The process structure and the kernel stacks are in order, and `p` is in use. -/
structure Alive (p : Pid) (k : Kernel) : Prop where
  forest : ∃ F, Refines k.links F
  separate : StacksSeparate k
  used : k.pid_array p = true

/-- What belongs to `p` stays. -/
structure KeepsOwn (p : Pid) (k k' : Kernel) : Prop where
  used : k'.pid_array p = true
  fd_table : (k'.pcb p).fd_table = (k.pcb p).fd_table
  arg : (k'.pcb p).arg = (k.pcb p).arg

section
variable {m : Machine} {p : Pid} {k k' : Kernel} {out : Outcome}

theorem KeepsOwn.trans {k₁ : Kernel} (h : KeepsOwn p k k₁) (h' : KeepsOwn p k₁ k') :
    KeepsOwn p k k' :=
  ⟨h'.used, h'.fd_table.trans h.fd_table, h'.arg.trans h.arg⟩

theorem KeepsOwn.of_pcb (hused : k'.pid_array p = true) (hpcb : k'.pcb p = k.pcb p) :
    KeepsOwn p k k' := by
  refine ⟨hused, ?_, ?_⟩
  · rw [hpcb]
  · rw [hpcb]

/-- A new process takes a free slot. -/
theorem execute_func_keepsOwn {caller : Caller} {command : Bytes} {fr : Frame}
    (hused : k.pid_array p = true)
    (h : execute_func m caller command fr k = some (k', out)) : KeepsOwn p k k' := by
  rcases execute_func_cases h with ⟨fs, -, -, rfl⟩ | ⟨x, -, -, -, console, -, rfl⟩ |
    ⟨x, q, -, hfree, -, -, frame, console, -, rfl⟩
  · exact KeepsOwn.of_pcb hused rfl
  · exact KeepsOwn.of_pcb hused rfl
  · have hne : p ≠ q := by
      intro heq
      rw [heq, hfree] at hused
      cases hused
    refine KeepsOwn.of_pcb ?_ (started_pcb_of_ne _ _ _ _ _ _ _ _ hne)
    show Function.update k.pid_array q true p = true
    rw [Function.update_of_ne hne]
    exact hused

/-- The end of another process, while `p` does not run. -/
theorem halt_func_keepsOwn {F : Forest TermId Pid} {status : UInt8} {fr frShell : Frame}
    (hF : Refines k.links F) (hused : k.pid_array p = true) (hcur : k.cur_pid ≠ p)
    (hother : ∀ t, ¬ HaltTarget status k p t)
    (h : halt_func m status fr frShell k = some (k', out)) : KeepsOwn p k k' := by
  obtain ⟨victim, t, k₁, htarget, -, hend⟩ := halt_func_cases h
  obtain ⟨hwhom, -, -⟩ := halt_target_links (k := k.cli) hF.cur_term htarget
  have hne : p ≠ victim := fun heq => hother t (heq ▸ hwhom)
  have hreleased : KeepsOwn p k (released victim k₁) := by
    constructor
    · rw [released_target_array hF htarget, Function.update_of_ne hne]
      exact hused
    · -- the files `halt` closes are those of whoever runs
      rw [released_target_tables htarget]
      unfold closedTables
      rw [if_neg hcur.symm]
    · rw [(released_arguments victim k₁).1, (halt_target_arguments htarget).1]
      rfl
  rcases hend with ⟨parent, -, heq⟩ | ⟨-, e, -, hex⟩
  · rw [(Prod.mk.inj heq).1]
    exact ⟨hreleased.used, hreleased.fd_table, hreleased.arg⟩
  · have hvacated : KeepsOwn p k
        ((released victim k₁).modTerm t fun i => { i with running_pid := none }) :=
      ⟨hreleased.used, hreleased.fd_table, hreleased.arg⟩
    exact hvacated.trans (execute_func_keepsOwn hvacated.used hex)

theorem launch_term_keepsOwn {t : TermId} {fr frShell : Frame} (hused : k.pid_array p = true)
    (h : launch_term m t fr frShell k = some (k', out)) : KeepsOwn p k k' := by
  rcases launch_term_cases h with ⟨-, rfl, -⟩ | ⟨-, -, old, -, r, hex, -⟩ | ⟨-, -, rfl, -⟩
  · exact KeepsOwn.of_pcb hused rfl
  · -- the process that is left has only its position stored
    have hopen : KeepsOwn p k (opening t old fr k) :=
      ⟨hused, update_field Pcb.fd_table p, update_field Pcb.arg p⟩
    exact hopen.trans (execute_func_keepsOwn hused hex)
  · exact KeepsOwn.of_pcb hused rfl

theorem tick_keepsOwn {fr : Frame} (hid : ∀ t, (k.term t).term_id = t)
    (hused : k.pid_array p = true) (h : pit_interrupt_handler m fr k = some k') :
    KeepsOwn p k k' := by
  rcases pit_interrupt_handler_cases hid h with ⟨-, -, rfl⟩ | ⟨-, t, q, curr, -, -, rfl⟩
  · exact KeepsOwn.of_pcb hused rfl
  · exact ⟨hused, update_field Pcb.fd_table p, update_field Pcb.arg p⟩

/-- A call that changes at most the descriptors of the running process. -/
theorem Quiet.keepsOwn (h : Quiet k k') (hused : k.pid_array p = true) (hcur : k.cur_pid ≠ p) :
    KeepsOwn p k k' := by
  obtain ⟨table, freq, paging, console, fs, frame, -, rfl⟩ := h
  exact KeepsOwn.of_pcb hused (Function.update_of_ne hcur.symm _ _)

/-- One step of the kernel. -/
theorem step_keepsOwn {e : Event} (h : Alive p k) (hnotOf : NotOf p k e)
    (hok : KeepsStacks m k e) (hs : step m k e = some (k', out)) :
    Alive p k' ∧ KeepsOwn p k k' := by
  obtain ⟨⟨F, hF⟩, hstacks, hused⟩ := h
  have hkeeps : KeepsOwn p k k' := by
    cases e with
    | execute command fr => exact execute_func_keepsOwn hused hs
    | halt status fr frShell =>
      exact halt_func_keepsOwn hF hused hnotOf.1 hnotOf.2 hs
    | launch_term t fr frShell => exact launch_term_keepsOwn hused hs
    | tick fr => exact tick_keepsOwn hF.stacked.number hused (step_tick hs).1
    | open_file filename =>
      rw [step, Option.some.injEq, Prod.mk.injEq] at hs
      rw [← hs.1]
      exact (open_func_quiet m filename k).keepsOwn hused hnotOf
    | close fd =>
      obtain ⟨r, hclose, -⟩ := step_close hs
      exact (close_func_quiet hclose).keepsOwn hused hnotOf
    | vidmap screen_start =>
      obtain ⟨r, hvid, -⟩ := step_vidmap hs
      exact (vidmap_func_quiet hvid).keepsOwn hused hnotOf
    | io console dir_number page position rtc_freq =>
      exact (io_step_quiet (step_io hs).1).keepsOwn hused hnotOf
  obtain ⟨F', -, hF'⟩ := step_refines hF hs
  exact ⟨⟨⟨F', hF'⟩, step_stacks hF hstacks hok hs, hkeeps.used⟩, hkeeps⟩

/-- It stays so while neither the links nor the stack pointers change. -/
theorem Alive.congr (h : Alive p k) (hlinks : k'.links = k.links)
    (htss : k'.tss.esp0 = k.tss.esp0) (hesp : ∀ q, (k'.pcb q).esp = (k.pcb q).esp)
    (hterm : ∀ t, (k'.term t).esp0 = (k.term t).esp0) : Alive p k' := by
  obtain ⟨F, hF⟩ := h.forest
  exact ⟨⟨F, hlinks ▸ hF⟩, h.separate.congr hlinks htss hesp hterm,
    (congrFun (congrArg Links.pid_array hlinks) p).trans h.used⟩

/-- Whatever happens of that, a process finds its descriptors and its argument as it left them. -/
theorem Meanwhile.keeps (h : Alive p k) (hmeanwhile : Meanwhile m p k k') :
    Alive p k' ∧ KeepsOwn p k k' := by
  induction hmeanwhile with
  | refl => exact ⟨h, h.used, rfl, rfl⟩
  | @tail k₁ k' _ hstep ih =>
    obtain ⟨halive, hkeeps⟩ := ih
    cases hstep with
    | typed console =>
      have halive' : Alive p { k₁ with console := console } :=
        halive.congr rfl rfl (fun _ => rfl) fun _ => rfl
      exact ⟨halive', hkeeps.used, hkeeps.fd_table, hkeeps.arg⟩
    | operation hspares hs =>
      obtain ⟨halive', hkeeps'⟩ := step_keepsOwn halive hspares.1 hspares.2.2 hs
      exact ⟨halive', hkeeps.trans hkeeps'⟩

end

end Kernel391
