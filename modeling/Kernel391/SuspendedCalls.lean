import Kernel391.Children

/-!
# The frames of processes that wait in `execute`

`halt` comes back to an `execute` by loading the stack pointer that the dead process's PCB has on
record. The frame it loads has lain on the caller's kernel stack since the call. Nothing in the
kernel's records tells whether it is still there: a process that enters the kernel further up on
the same stack pushes its own frame over it.

So the kernel runs with a history variable here, the places where the kernel has been entered
since each process was started. Operations are atomic: an interrupt taken inside the kernel pushes
below the frame of the call it interrupts, and is no entry of its own.

`halt_ends_caller_iff` is what `halt` does to its caller and for its caller's parent, and
`frames_kept` says that the frames survive every run in which the processes enter the kernel on
their own stacks.
-/

namespace Kernel391

open PointerChain TransitionSystem

/-! ## The history variable -/

/-- For every process, the stack pointers at which the kernel has been entered since it was
started. -/
abbrev Entries := Pid → List UInt32

/-- Operation `e` enters the kernel. The first process of a terminal has no caller that waits. -/
def noteEntry (k : Kernel) (_ : Event) (entries : Entries) : Entries := fun q =>
  if k.pid_array q = true ∧ (k.pcb q).parent ≠ none then k.tss.esp0 :: entries q else []

/-- The kernel with the history of where it was entered. Every run has one
(`System.withHistory_lift`). -/
def systemEntered (m : Machine) : System (Kernel × Entries) Event :=
  (system m fun _ => True).withHistory (fun _ entries => ∀ q, entries q = []) noteEntry

/-- The frame of whoever called for `q` has not been written over by one of these entries. An
entry above it counts, however few words it pushes. -/
def FrameKept (k : Kernel) (entries : List UInt32) (q : Pid) : Prop :=
  ∀ e ∈ entries, ¬ Overwrites e (k.pcb q).esp

-- by recursion on the list, not over all stack pointers
instance (k : Kernel) (entries : List UInt32) (q : Pid) : Decidable (FrameKept k entries q) :=
  List.decidableBAll (fun e => ¬ Overwrites e (k.pcb q).esp) entries

section
variable {m : Machine} {k k' : Kernel} {entries : Entries}

theorem noteEntry_of_parent {e : Event} {q : Pid} (hq : k.pid_array q = true)
    (hparent : (k.pcb q).parent ≠ none) :
    noteEntry k e entries q = k.tss.esp0 :: entries q :=
  if_pos ⟨hq, hparent⟩

theorem noteEntry_of_no_parent {e : Event} {q : Pid}
    (h : k.pid_array q = false ∨ (k.pcb q).parent = none) : noteEntry k e entries q = [] := by
  refine if_neg ?_
  rintro ⟨hq, hparent⟩
  rcases h with hfree | hnone
  · rw [hq] at hfree
    cases hfree
  · exact hparent hnone

theorem reachable_of_entered {p : Kernel × Entries} (h : (systemEntered m).Reachable p) :
    Reachable m p.1 :=
  System.withHistory_erase h

/-- Everybody who waits in an `execute` has its frame. -/
def FramesKept (k : Kernel) (entries : Entries) : Prop :=
  ∀ q, k.pid_array q = true → (k.pcb q).parent ≠ none → FrameKept k (entries q) q

/-- With separate stacks, the operation that comes next is no entry above a frame either. -/
theorem FramesKept.entry {F : Forest TermId Pid} (h : FramesKept k entries)
    (hF : Refines k.links F) (hstacks : StacksSeparate k) {q : Pid} (hq : k.pid_array q = true)
    (hparent : (k.pcb q).parent ≠ none) : FrameKept k (k.tss.esp0 :: entries q) q := by
  obtain ⟨parent, hsome⟩ := Option.ne_none_iff_exists'.mp hparent
  exact List.forall_mem_cons.mpr ⟨hstacks.not_overwrites hF hq hsome, h q hq hparent⟩

theorem FramesKept.step {e : Event} {out : Outcome} {F : Forest TermId Pid}
    (h : FramesKept k entries) (hF : Refines k.links F) (hstacks : StacksSeparate k)
    (hs : step m k e = some (k', out)) : FramesKept k' (noteEntry k e entries) := by
  intro q hq hparent
  -- the entries of a process start anew when its slot is taken
  have hfresh (hnone : k.pid_array q = false ∨ (k.pcb q).parent = none) :
      FrameKept k' (noteEntry k e entries q) q := by
    rw [noteEntry_of_no_parent hnone]
    exact fun e he => absurd he List.not_mem_nil
  cases step_fate hF hs q with
  | same hslot hsame =>
    rw [hslot] at hq
    rw [hsame.parent] at hparent
    rw [noteEntry_of_parent hq hparent]
    unfold FrameKept
    rw [hsame.esp]
    exact h.entry hF hstacks hq hparent
  | shell hfree _ => exact hfresh (.inl hfree)
  | child _ _ hnew => exact hfresh (.inl hnew.free)
  | halted _ _ hend =>
    rcases hend with hfree | ⟨hroot, -⟩
    · rw [hq] at hfree
      cases hfree
    · -- a shell that takes the slot of the one that has ended
      exact hfresh (.inr hroot)

/-- While every process enters the kernel on its own stack, every process that waits in its
`execute` finds its frame as it left it. -/
theorem frames_kept
    (h : (systemEntered m).ReachableWhere (fun p e => KeepsStacks m p.1 e) (k, entries)) (q : Pid)
    (hq : k.pid_array q = true) (hparent : (k.pcb q).parent ≠ none) :
    FrameKept k (k.tss.esp0 :: entries q) q := by
  have hkept : FramesKept k entries := by
    refine h.invariant (P := fun p => FramesKept p.1 p.2) (fun p h0 q _ _ => ?_)
      fun p e p' hr hp _ hstep => ?_
    · rw [h0.2 q]
      exact fun e he => absurd he List.not_mem_nil
    · obtain ⟨hs, hnote⟩ := System.withHistory_step_iff.mp hstep
      obtain ⟨out, hs⟩ := system_step_iff.mp hs
      have hrun : ReachableWhere m (KeepsStacks m) p.1 := System.withHistory_erase hr
      obtain ⟨F, hF⟩ := hrun.reachable.refines
      rw [hnote]
      exact hp.step hF (stacksSeparate_of_run hrun) hs
  have hrun : ReachableWhere m (KeepsStacks m) k := System.withHistory_erase (p := (k, entries)) h
  obtain ⟨F, hF⟩ := hrun.reachable.refines
  exact hkept.entry hF (stacksSeparate_of_run hrun) hq hparent

end

/-! ## `halt` ends its caller -/

/-- The running process of `k` has ended, with these entries into the kernel since it was
started: it alone has left the process table and the chain of its terminal, no other terminal has
changed, and its parent, now on top, gets `status` from the `execute` call that started it, whose
frame is still there. -/
structure EndsCaller (k k' : Kernel) (entries : List UInt32) (parent : Pid) (status : UInt8)
    (out : Outcome) : Prop where
  freed : k'.pid_array = Function.update k.pid_array k.cur_pid false
  popped : ∀ l, IsChain (fun p => (k.pcb p).parent) (k.running_pid (k.pcb k.cur_pid).term_id)
      (k.cur_pid :: l) →
    IsChain (fun p => (k'.pcb p).parent) (k'.running_pid (k.pcb k.cur_pid).term_id) l
  others : ∀ t, t ≠ (k.pcb k.cur_pid).term_id → k'.running_pid t = k.running_pid t
  parent_runs : k'.running_pid (k.pcb k.cur_pid).term_id = some parent
  result : out = .resume (.process parent) (k.pcb k.cur_pid).esp (k.pcb k.cur_pid).ebp
    status.toNat
  frame : FrameKept k entries k.cur_pid

/-- The caller is what `halt` ends, and its parent is who started it. -/
theorem EndsCaller.of_links {k k' : Kernel} {entries : List UInt32} {parent : Pid}
    {status : UInt8} {F : Forest TermId Pid} (hF : Refines k.links F)
    (hparent : (k.pcb k.cur_pid).parent = some parent)
    (hcaller : (k.pcb k.cur_pid).caller = .process parent)
    (hframe : FrameKept k entries k.cur_pid)
    (hlinks : k'.links = k.links.detach k.cur_pid k.running_term parent) :
    EndsCaller k k' entries parent status (.resume (k.pcb k.cur_pid).caller (k.pcb k.cur_pid).esp
      (k.pcb k.cur_pid).ebp status.toNat) := by
  have hterm : (k.pcb k.cur_pid).term_id = k.running_term := hF.cur_term
  have hself : (k.pcb k.cur_pid).pid = k.cur_pid := hF.cur_own
  have hown : (k.pcb parent).pid = parent := hF.stacked.parent_own hF.cur hparent
  have hrunning : k'.running_pid k.running_term = some parent := by
    have hset := congrFun (congrArg Links.running_pid hlinks) k.running_term
    rw [show k'.links.running_pid k.running_term = k'.running_pid k.running_term from rfl] at hset
    rw [hset]
    show Function.update k.links.running_pid k.running_term (some (k.pcb parent).pid)
      k.running_term = some parent
    rw [Function.update_self, hown]
  refine ⟨?_, fun l hchain => ?_, fun t ht => ?_, ?_, ?_, hframe⟩
  · rw [show k'.pid_array = _ from congrArg Links.pid_array hlinks]
    show Function.update k.pid_array (k.pcb k.cur_pid).pid false = _
    rw [hself]
  · rw [hterm, hrunning]
    have hlinked : (fun p => (k'.pcb p).parent) = fun p => (k.pcb p).parent :=
      congrArg Links.parent hlinks
    rw [hlinked, ← hparent]
    exact hchain.2
  · rw [hterm] at ht
    have hset := congrFun (congrArg Links.running_pid hlinks) t
    refine hset.trans ?_
    show Function.update k.links.running_pid k.running_term (some (k.pcb parent).pid) t = _
    exact Function.update_of_ne ht ..
  · rw [hterm]
    exact hrunning
  · rw [hcaller]

/-- `halt` by a process with a parent ends exactly that process, and its parent gets the
status, if and only if the status is not taken for Ctrl+C on another terminal, the parent
on record is the process that called `execute`, no open descriptor lacks its operations, and
nobody has entered the kernel above the frame of that call since, this `halt` included. -/
theorem halt_ends_caller_iff {m : Machine} {k : Kernel} {entries : Entries}
    (h : (systemEntered m).Reachable (k, entries)) {parent : Pid}
    (hparent : (k.pcb k.cur_pid).parent = some parent) (status : UInt8) (fr frShell : Frame) :
    (∃ k' out, step m k (.halt status fr frShell) = some (k', out) ∧
      EndsCaller k k' (k.tss.esp0 :: entries k.cur_pid) parent status out) ↔
    (status ≠ 1 ∨ k.curr_term = k.running_term) ∧
      (k.pcb k.cur_pid).caller = .process parent ∧ Closable k.cur_pid k ∧
      FrameKept k (k.tss.esp0 :: entries k.cur_pid) k.cur_pid := by
  obtain ⟨F, hF⟩ := (reachable_of_entered h).refines
  have hcur : k.running_pid k.running_term = some k.cur_pid := hF.cur
  have hlive : k.pid_array k.cur_pid = true := hF.cur_used
  constructor
  · rintro ⟨k', out, hstep, hends⟩
    obtain ⟨victim, t, k₁, htarget, hclose, -⟩ := halt_func_cases hstep
    obtain ⟨hwhom, -, -⟩ := halt_target_links (k := k.cli) hF.cur_term htarget
    -- otherwise the caller would still be in the table
    have hvictim : victim = k.cur_pid := by
      by_contra hne
      obtain ⟨v, u, hwhom', hkeep⟩ := halt_func_keeps_others hF hstep
      have hv : v ≠ k.cur_pid := by
        intro hv
        have hcond := (haltTarget_cur_iff hF hwhom').mp hv
        exact hne ((haltTarget_cur_iff hF hwhom).mpr hcond)
      have hstill := hkeep k.cur_pid (Ne.symm hv) hlive
      rw [hends.freed, Function.update_self] at hstill
      cases hstill
    subst hvictim
    have hclosable := (halt_target_closable htarget k.cur_pid).mp hclose
    obtain ⟨k₂, hhalt, -⟩ := halt_func_of_parent m frShell hF.cur_term htarget
      hclosable hparent
    refine ⟨(haltTarget_cur_iff hF hwhom).mp rfl, ?_, hclosable, hends.frame⟩
    rw [show halt_func m status fr frShell k = _ from hstep, Option.some.injEq,
      Prod.mk.injEq] at hhalt
    have hout := hends.result.symm.trans hhalt.2
    rw [Outcome.resume.injEq] at hout
    exact hout.1.symm
  · rintro ⟨hwho, hcaller, hclosable, hframe⟩
    have hdisplay : status = 1 → k.running_pid k.curr_term ≠ none := by
      intro hs hnone
      rcases hwho with hne | hterm
      · exact hne hs
      · rw [hterm, hcur] at hnone
        cases hnone
    obtain ⟨victim, t, k₁, htarget⟩ := halt_target_isSome status fr hF hdisplay
    obtain ⟨hwhom, -, -⟩ := halt_target_links (k := k.cli) hF.cur_term htarget
    have hvictim : victim = k.cur_pid := (haltTarget_cur_iff hF hwhom).mpr hwho
    subst hvictim
    obtain ⟨k', hhalt, hlinks, -⟩ := halt_func_of_parent m frShell hF.cur_term
      htarget hclosable hparent
    -- a process is on one terminal only
    have ht : t = k.running_term := by
      have htop := hwhom.top hF
      exact F.family.disjoint _ _ _ (hF.stacked.mem_top htop) hF.cur_mem
    rw [ht] at hlinks
    exact ⟨k', _, hhalt, EndsCaller.of_links hF hparent hcaller hframe hlinks⟩

/-- The history before the first operation. -/
theorem systemEntered_init : (systemEntered sampleMachine).Reachable (sampleKernel, fun _ => []) :=
  .init ⟨⟨sampleMemory, trivial, sampleKernel_started⟩, fun _ => rfl⟩

/-- A child of the first shell, started and running on the displayed terminal, halts with
status 0. -/
theorem halt_ends_caller_child : ∃ k entries, (systemEntered sampleMachine).Reachable (k, entries) ∧
    (k.pcb k.cur_pid).parent = some 0 ∧
    ∃ k' out, step sampleMachine k (.halt 0 sampleFrame sampleFrame) = some (k', out) ∧
      EndsCaller k k' (k.tss.esp0 :: entries k.cur_pid) 0 0 out := by
  have hrun : ((systemEntered sampleMachine).runFrom (sampleKernel, fun _ => [])
      [.execute sampleMachine.shell sampleFrame]).any (fun p =>
        decide ((p.1.pcb p.1.cur_pid).parent = some 0 ∧
          (p.1.pcb p.1.cur_pid).caller = .process 0 ∧
          (∀ fd, ((p.1.pcb p.1.cur_pid).fd_table fd).flags = true → ¬ CloseFaults p.1 fd) ∧
          FrameKept p.1 (p.1.tss.esp0 :: p.2 p.1.cur_pid) p.1.cur_pid)) = true := by
    decide +kernel
  rw [Option.any_eq_true] at hrun
  obtain ⟨⟨k, entries⟩, hrun, hcheck⟩ := hrun
  rw [decide_eq_true_eq] at hcheck
  obtain ⟨hparent, hcaller, hclose, hframe⟩ := hcheck
  have hreach := systemEntered_init.runFrom _ hrun
  exact ⟨k, entries, hreach, hparent, (halt_ends_caller_iff hreach hparent 0 sampleFrame
    sampleFrame).mpr ⟨Or.inl (by decide), hcaller, hclose, hframe⟩⟩

/-- A program that returns 1 while another terminal is on display goes on: it is the shell
on display that ends. -/
theorem halt_one_ends_displayed : ¬ ∀ k entries,
    (systemEntered sampleMachine).Reachable (k, entries) → ∀ parent,
    (k.pcb k.cur_pid).parent = some parent → ∀ status fr frShell,
    ∃ k' out, step sampleMachine k (.halt status fr frShell) = some (k', out) ∧
      EndsCaller k k' (k.tss.esp0 :: entries k.cur_pid) parent status out := by
  intro hall
  have hrun : ((systemEntered sampleMachine).runFrom (sampleKernel, fun _ => [])
      [.execute sampleMachine.shell sampleFrame, .launch_term 1 sampleFrame sampleFrame,
        .tick sampleFrame]).any (fun p =>
        decide ((p.1.pcb p.1.cur_pid).parent = some 0) &&
          ((step sampleMachine p.1 (.halt 1 sampleFrame sampleFrame)).all fun r =>
            r.1.pid_array p.1.cur_pid)) = true := by
    decide +kernel
  rw [Option.any_eq_true] at hrun
  obtain ⟨⟨k, entries⟩, hrun, hcheck⟩ := hrun
  rw [Bool.and_eq_true, decide_eq_true_eq] at hcheck
  obtain ⟨hparent, hstay⟩ := hcheck
  obtain ⟨k', out, hstep, hends⟩ := hall k entries (systemEntered_init.runFrom _ hrun) 0 hparent 1
    sampleFrame sampleFrame
  rw [hstep, Option.all_some, hends.freed, Function.update_self] at hstay
  cases hstay

/-- A program of the first shell ends and terminal 1 is opened, whose shell takes over its
process number and runs a program. A tick lets the first shell run with an entry point above the
frame of the other shell. The next tick enters the kernel there, and the frame is lost: the
program that it lets run can halt, but not to its caller. -/
theorem halt_into_lost_frame : ∃ k entries, (systemEntered sampleMachine).Reachable (k, entries) ∧
    (k.pcb k.cur_pid).parent = some 1 ∧ (k.pcb k.cur_pid).caller = .process 1 ∧
    Closable k.cur_pid k ∧ ¬ FrameKept k (k.tss.esp0 :: entries k.cur_pid) k.cur_pid := by
  have hrun : ((systemEntered sampleMachine).runFrom (sampleKernel, fun _ => [])
      [.execute sampleMachine.shell sampleFrame, .halt 0 sampleFrame sampleFrame,
        .launch_term 1 sampleFrame sampleFrame, .execute sampleMachine.shell laterFrame,
        .tick sampleFrame, .tick sampleFrame]).any (fun p =>
        decide ((p.1.pcb p.1.cur_pid).parent = some 1 ∧
          (p.1.pcb p.1.cur_pid).caller = .process 1 ∧
          (∀ fd, ((p.1.pcb p.1.cur_pid).fd_table fd).flags = true → ¬ CloseFaults p.1 fd) ∧
          ¬ FrameKept p.1 (p.1.tss.esp0 :: p.2 p.1.cur_pid) p.1.cur_pid)) = true := by
    decide +kernel
  rw [Option.any_eq_true] at hrun
  obtain ⟨⟨k, entries⟩, hrun, hcheck⟩ := hrun
  rw [decide_eq_true_eq] at hcheck
  exact ⟨k, entries, systemEntered_init.runFrom _ hrun, hcheck⟩

end Kernel391
