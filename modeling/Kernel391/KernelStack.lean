import Kernel391.Callers

/-!
# Kernel stacks

Every process has its own kernel stack, above its PCB, and enters the kernel at
`tss.esp0`. That address is copied back and forth between the task state segment, the
terminal records and the PCBs:

* `execute` sets it to the top of the new process's stack, and records the stack pointer of
  the call in the new PCB;
* `halt` sets it to what the PCB recorded, which is below the stack top the parent had, by
  what the `execute` call had pushed;
* `schedule`, and `halt` with status 1, save it in the record of the terminal they leave;
  `launch_term` and `execute` leave a terminal without saving it.

`StacksSeparate` is the invariant under which the address stays in the right stack, and
`KeepsStacks` says which operations keep it.
-/

namespace Kernel391

open TransitionSystem

/-! ## Stack regions -/

/-- `e` is a stack pointer in the kernel stack of process `p`, above its PCB. -/
def StackOk (p : Pid) (e : UInt32) : Prop :=
  get_specific_pcb p + sizeof_pcb < e.toNat ∧ e.toNat ≤ _8MB - _8KB * p

instance (p : Pid) (e : UInt32) : Decidable (StackOk p e) := by
  unfold StackOk
  infer_instance

/-- The kernel stacks of two processes share no address. -/
theorem StackOk.unique {p q : Pid} {e : UInt32} (hp : StackOk p e) (hq : StackOk q e) : p = q := by
  unfold StackOk get_specific_pcb sizeof_pcb MAX_ARG _8MB _8KB at hp hq
  have hplt := p.isLt
  have hqlt := q.isLt
  apply Fin.ext
  omega

/-- A new process starts at the top of its stack. -/
theorem stackOk_stack_base (p : Pid) : StackOk p (stack_base p) := by
  revert p
  decide

/-! ## The invariant -/

/-- The scheduler is off while terminals 1 and 2 have no process, and otherwise finds another
terminal than the running one: a lone terminal with a process is terminal 0. -/
def SchedulerMoves (busy : TermId → Prop) : Prop := busy 0 ∨ (busy 1 ∧ busy 2)

theorem SchedulerMoves.mono {busy busy' : TermId → Prop} (h : SchedulerMoves busy)
    (himp : ∀ t, busy t → busy' t) : SchedulerMoves busy' := by
  rcases h with h0 | ⟨h1, h2⟩
  · exact Or.inl (himp 0 h0)
  · exact Or.inr ⟨himp 1 h1, himp 2 h2⟩

structure StacksSeparate (k : Kernel) : Prop where
  /-- The running process enters the kernel on its own stack. -/
  running : StackOk k.cur_pid k.tss.esp0
  /-- So will every process that waits on top of a terminal. -/
  waiting : ∀ t p, t ≠ k.running_term → k.running_pid t = some p → StackOk p (k.term t).esp0
  /-- A process records a stack pointer of its parent. -/
  recorded : ∀ p parent, k.pid_array p = true → (k.pcb p).parent = some parent →
    StackOk parent (k.pcb p).esp
  /-- The scheduler never switches a terminal to itself. -/
  moves : SchedulerMoves fun t => k.running_pid t ≠ none

/-- Starting a process on the displayed terminal, from a kernel where the other terminals
have good records and the process on display, which becomes the parent, is the caller. -/
theorem StacksSeparate.start {caller : Caller} {x : Executable} {p : Pid} {fr : Frame}
    {k : Kernel} {frame : Pid → Bytes} {console : Console}
    (hwait : ∀ t q, t ≠ k.curr_term → k.running_pid t = some q → StackOk q (k.term t).esp0)
    (hrecorded : ∀ q parent, k.pid_array q = true → (k.pcb q).parent = some parent →
      StackOk parent (k.pcb q).esp)
    (hparent : ∀ parent, k.running_pid k.curr_term = some parent → StackOk parent (fr.esp k))
    (hmoves : SchedulerMoves fun t => t = k.curr_term ∨ k.running_pid t ≠ none) :
    StacksSeparate (started caller x p fr k frame console) := by
  have hterm : ∀ t, t ≠ k.curr_term →
      (started caller x p fr k frame console).term t = k.term t :=
    fun t ht => Function.update_of_ne ht ..
  have htop : (started caller x p fr k frame console).running_pid k.curr_term = some p := by
    show (Function.update k.term k.curr_term _ k.curr_term).running_pid = some p
    rw [Function.update_self]
  refine ⟨stackOk_stack_base p, fun t q ht hq => ?_, fun q parent hlive hp => ?_, ?_⟩
  · -- terminals other than the displayed one are not touched
    have hsame := hterm t ht
    unfold Kernel.running_pid at hq
    rw [hsame] at hq ⊢
    exact hwait t q ht hq
  · by_cases hqp : q = p
    · subst hqp
      rw [started_pcb_self] at hp ⊢
      exact hparent parent hp
    · rw [started_pcb_of_ne _ _ _ _ _ _ _ _ hqp] at hp ⊢
      have hold : Function.update k.pid_array p true q = true := hlive
      rw [Function.update_of_ne hqp] at hold
      exact hrecorded q parent hold hp
  · refine hmoves.mono fun t ht hnone => ?_
    by_cases hc : t = k.curr_term
    · rw [hc, htop] at hnone
      cases hnone
    · unfold Kernel.running_pid at hnone
      rw [hterm t hc] at hnone
      exact ht.resolve_left hc hnone

/-- The invariant looks at the links, the recorded stack pointers and the entry points. -/
theorem StacksSeparate.congr {k k' : Kernel} (h : StacksSeparate k) (hlinks : k'.links = k.links)
    (htss : k'.tss.esp0 = k.tss.esp0) (hesp : ∀ p, (k'.pcb p).esp = (k.pcb p).esp)
    (hterm : ∀ t, (k'.term t).esp0 = (k.term t).esp0) : StacksSeparate k' := by
  have hcur : k'.cur_pid = k.cur_pid := congrArg Links.cur_pid hlinks
  have hrun : k'.running_term = k.running_term := congrArg Links.running_term hlinks
  have harray : k'.pid_array = k.pid_array := congrArg Links.pid_array hlinks
  have htop : ∀ t, k'.running_pid t = k.running_pid t :=
    congrFun (congrArg Links.running_pid hlinks)
  have hparent : ∀ p, (k'.pcb p).parent = (k.pcb p).parent :=
    congrFun (congrArg Links.parent hlinks)
  refine ⟨?_, fun t p ht hp => ?_, fun p parent hlive hp => ?_, ?_⟩
  · rw [hcur, htss]
    exact h.running
  · rw [hrun] at ht
    rw [htop] at hp
    rw [hterm]
    exact h.waiting t p ht hp
  · rw [harray] at hlive
    rw [hparent] at hp
    rw [hesp]
    exact h.recorded p parent hlive hp
  · refine h.moves.mono fun t ht => ?_
    rw [htop]
    exact ht

/-- A kernel entry at `e` pushes onto the stack from there downwards, and so over a frame that
lies at `esp` further down. -/
def Overwrites (e esp : UInt32) : Prop := esp < e ∧ ∃ p, StackOk p e ∧ StackOk p esp

instance (e esp : UInt32) : Decidable (Overwrites e esp) := by
  unfold Overwrites
  infer_instance

/-- While the stacks are separate, a process that waits for its child has its frame to itself:
the process that runs is not the one that waits. -/
theorem StacksSeparate.not_overwrites {k : Kernel} {F : Forest TermId Pid} {q parent : Pid}
    (h : StacksSeparate k) (hF : Refines k.links F) (hq : k.pid_array q = true)
    (hparent : (k.pcb q).parent = some parent) : ¬ Overwrites k.tss.esp0 (k.pcb q).esp := by
  rintro ⟨-, p, hentry, hframe⟩
  have hcur : p = k.cur_pid := hentry.unique h.running
  have hwaits : p = parent := hframe.unique (h.recorded q parent hq hparent)
  obtain ⟨-, htop⟩ := hF.stacked.parent_below hq hparent
  refine htop k.running_term ?_
  rw [← hwaits, hcur]
  exact hF.cur

/-! ## Operations that keep the stacks separate -/

/-- The terminal being left has the entry point of the running process on record. -/
def RecordedEntry (k : Kernel) : Prop := StackOk k.cur_pid (k.term k.running_term).esp0

instance (k : Kernel) : Decidable (RecordedEntry k) := by
  unfold RecordedEntry
  infer_instance

/-- Which operations keep the kernel stacks separate:

* an `execute` that starts a process is called by the process on display, with the pushed
  bytes still on its stack, or there is no process on display and the entry point of the
  terminal left is on record;
* the last process of a terminal halts, other than by Ctrl+C, on the displayed terminal, or
  there is no process on display, and the terminal left is not terminal 0 or not the only
  one with a process;
* a terminal is opened only with the entry point of the terminal left on record. -/
def KeepsStacks (m : Machine) (k : Kernel) : Event → Prop
  | .execute command fr =>
    (∃ x, check_command m.img command fr k.fs = .accept x) → (∃ p, k.pid_array p = false) →
      (k.curr_term = k.running_term ∧ StackOk k.cur_pid (fr.esp k)) ∨
        (k.running_pid k.curr_term = none ∧ RecordedEntry k)
  | .halt status _ _ =>
    status ≠ 1 → (k.pcb k.cur_pid).parent = none →
      k.curr_term = k.running_term ∨ (k.running_pid k.curr_term = none ∧
        (k.running_term ≠ 0 ∨ ∃ u, u ≠ k.running_term ∧ k.running_pid u ≠ none))
  | .launch_term t _ _ =>
    t ≠ k.curr_term → k.running_pid t = none → (∃ p, k.pid_array p = false) → RecordedEntry k
  | _ => True

section
variable {m : Machine} {k k' : Kernel} {out : Outcome} {F : Forest TermId Pid}

theorem execute_stacks {command : Bytes} {fr : Frame} (hF : Refines k.links F)
    (h : StacksSeparate k) (hok : KeepsStacks m k (.execute command fr))
    (hs : execute_func m (.process k.cur_pid) command fr k = some (k', out)) :
    StacksSeparate k' := by
  have hcur : k.running_pid k.running_term = some k.cur_pid := hF.cur
  rcases execute_func_cases hs with ⟨fs, -, -, rfl⟩ | ⟨x, -, -, -, console, -, rfl⟩ |
    ⟨x, p, hcheck, hfree, -, -, frame, console, -, rfl⟩
  · exact h.congr rfl rfl (fun _ => rfl) fun _ => rfl
  · exact h.congr rfl rfl (fun _ => rfl) fun _ => rfl
  · apply StacksSeparate.start
    · intro t q ht hq
      by_cases hrun : t = k.running_term
      · -- the caller's terminal is left: its entry point must be on record
        subst hrun
        rw [hcur] at hq
        rw [← Option.some.inj hq]
        rcases hok ⟨x, hcheck⟩ ⟨p, hfree⟩ with ⟨hdisplay, -⟩ | ⟨-, hrecord⟩
        · exact absurd hdisplay.symm ht
        · exact hrecord
      · exact h.waiting t q hrun hq
    · exact h.recorded
    · intro parent hp
      rcases hok ⟨x, hcheck⟩ ⟨p, hfree⟩ with ⟨hdisplay, hroom⟩ | ⟨hnone, -⟩
      · rw [hdisplay, hcur] at hp
        rw [← Option.some.inj hp]
        exact hroom
      · rw [hnone] at hp
        cases hp
    · exact h.moves.mono fun t ht => Or.inr ht

theorem launch_term_stacks {t : TermId} {fr frShell : Frame} (hF : Refines k.links F)
    (h : StacksSeparate k) (hok : KeepsStacks m k (.launch_term t fr frShell))
    (hs : launch_term m t fr frShell k = some (k', out)) : StacksSeparate k' := by
  have hcur : k.running_pid k.running_term = some k.cur_pid := hF.cur
  rcases launch_term_cases hs with ⟨-, rfl, -⟩ | ⟨ht, hnone, old, -, r, hex, -⟩ | ⟨-, -, rfl, -⟩
  · exact h.congr rfl rfl (fun _ => rfl) fun _ => rfl
  · have hesp : ∀ p, ((opening t old fr k).pcb p).esp = (k.pcb p).esp :=
      fun p => update_field Pcb.esp p
    have hopen : StacksSeparate (opening t old fr k) :=
      h.congr (links_opening t old fr k) rfl hesp fun _ => rfl
    rcases execute_func_cases hex with ⟨fs, -, -, rfl⟩ | ⟨x, -, -, -, console, -, rfl⟩ |
      ⟨x, p, -, hfree, -, -, frame, console, -, rfl⟩
    · exact hopen.congr rfl rfl (fun _ => rfl) fun _ => rfl
    · exact hopen.congr rfl rfl (fun _ => rfl) fun _ => rfl
    · apply StacksSeparate.start
      · intro u q _ hq
        by_cases hrun : u = k.running_term
        · subst hrun
          rw [show (opening t old fr k).running_pid k.running_term = some k.cur_pid from hcur] at hq
          rw [← Option.some.inj hq]
          exact hok ht hnone ⟨p, hfree⟩
        · exact h.waiting u q hrun hq
      · exact hopen.recorded
      · intro parent hp
        rw [show (opening t old fr k).running_pid (opening t old fr k).curr_term = none
          from hnone] at hp
        cases hp
      · exact h.moves.mono fun t ht => Or.inr ht
  · exact h.congr rfl rfl (fun _ => rfl) fun _ => rfl

/-- The scheduler moves on. -/
theorem get_next_process_ne {t : TermId} {next : Option Pid}
    (h : get_next_process k = (t, next))
    (hmoves : SchedulerMoves fun t => k.running_pid t ≠ none)
    (h12 : k.running_pid 1 ≠ none ∨ k.running_pid 2 ≠ none) : t ≠ k.running_term := by
  unfold get_next_process at h
  dsimp only at h
  rw [Prod.mk.injEq] at h
  rw [← h.1]
  have hstep : ∀ r : TermId, r + 1 ≠ r ∧ r + 1 + 1 ≠ r := by decide
  have hround : ∀ r u : TermId, u = r ∨ u = r + 1 ∨ u = r + 1 + 1 := by decide
  by_cases h1 : k.running_pid (k.running_term + 1) = none
  · by_cases h2 : k.running_pid (k.running_term + 1 + 1) = none
    · -- the running terminal would be the only one with a process, and not terminal 0
      exfalso
      have honly : ∀ u, k.running_pid u ≠ none → u = k.running_term := by
        intro u hu
        rcases hround k.running_term u with hr | hr | hr
        · exact hr
        · exact absurd (hr ▸ h1) hu
        · exact absurd (hr ▸ h2) hu
      rcases hmoves with h0 | ⟨h1', h2'⟩
      · have hzero := honly 0 h0
        rcases h12 with h | h
        · exact absurd ((honly 1 h).trans hzero.symm) (by decide)
        · exact absurd ((honly 2 h).trans hzero.symm) (by decide)
      · exact absurd ((honly 1 h1').trans (honly 2 h2').symm) (by decide)
    · rw [if_neg (not_not.mpr h1), if_pos h2]
      exact (hstep k.running_term).2
  · rw [if_pos h1]
    exact (hstep k.running_term).1

theorem tick_stacks {fr : Frame} (hF : Refines k.links F) (h : StacksSeparate k)
    (hs : pit_interrupt_handler m fr k = some k') : StacksSeparate k' := by
  have hcur : k.running_pid k.running_term = some k.cur_pid := hF.cur
  rcases pit_interrupt_handler_cases hF.stacked.number hs with ⟨-, -, rfl⟩ |
    ⟨h12, t, p, curr, hnext, -, rfl⟩
  · exact h.congr rfl rfl (fun _ => rfl) fun _ => rfl
  · have hne := get_next_process_ne hnext h.moves h12
    have hlinks := links_switched m t p curr fr k
    have htop : ∀ u, (switched m t p curr fr k).running_pid u = k.running_pid u :=
      congrFun (congrArg Links.running_pid hlinks)
    refine ⟨h.waiting t p hne (get_next_process_spec hnext), fun u q hu hq => ?_,
      fun q parent hlive hq => ?_, ?_⟩
    · rw [htop] at hq
      show StackOk q (Function.update k.term k.running_term _ u).esp0
      by_cases hrun : u = k.running_term
      · subst hrun
        rw [hcur] at hq
        rw [← Option.some.inj hq, Function.update_self]
        exact h.running
      · rw [Function.update_of_ne hrun]
        exact h.waiting u q hrun hq
    · have hparent : ((switched m t p curr fr k).pcb q).parent = (k.pcb q).parent :=
        congrFun (congrArg Links.parent hlinks) q
      have hesp : ((switched m t p curr fr k).pcb q).esp = (k.pcb q).esp :=
        update_field Pcb.esp q
      rw [hparent] at hq
      rw [hesp]
      exact h.recorded q parent hlive hq
    · refine h.moves.mono fun u hu => ?_
      rw [htop]
      exact hu

/-- Choosing the target of a `halt`: the terminals other than the target's have good
records. -/
theorem halt_target_stacks {status : UInt8} {fr : Frame} {k₁ : Kernel} {victim : Pid}
    {t : TermId} (hF : Refines k.links F) (h : StacksSeparate k)
    (htarget : halt_target status fr k.cli = some (victim, t, k₁)) (u : TermId) (q : Pid)
    (hu : u ≠ t) (hq : k.running_pid u = some q) : StackOk q (k₁.term u).esp0 := by
  have hcur : k.running_pid k.running_term = some k.cur_pid := hF.cur
  obtain ⟨console, -, hcases⟩ := halt_target_cases htarget
  rcases hcases with ⟨-, -, rfl, hrun, rfl⟩ | ⟨-, -, rfl, hrun, running, hr, rfl⟩ |
    ⟨-, -, rfl, rfl⟩
  · exact h.waiting u q (fun hur => hu (hur.trans hrun)) hq
  · show StackOk q (Function.update k.term k.running_term _ u).esp0
    by_cases hur : u = k.running_term
    · subst hur
      rw [hcur] at hq
      rw [← Option.some.inj hq, Function.update_self]
      exact h.running
    · rw [Function.update_of_ne hur]
      exact h.waiting u q hur hq
  · exact h.waiting u q (fun hur => hu (hur.trans hF.cur_term.symm)) hq

/-- Freeing the target forgets the stack pointer it has recorded, and no other. -/
theorem released_recorded {status : UInt8} {fr : Frame} {k₁ : Kernel} {victim : Pid} {t : TermId}
    (hF : Refines k.links F) (h : StacksSeparate k)
    (htarget : halt_target status fr k.cli = some (victim, t, k₁)) (q parent : Pid)
    (hq : (released victim k₁).pid_array q = true)
    (hp : ((released victim k₁).pcb q).parent = some parent) :
    StackOk parent ((released victim k₁).pcb q).esp := by
  obtain ⟨-, -, -, -, -, hpcb⟩ := halt_target_frame htarget
  have hreleased := released_target_links (k := k.cli) hF.cur_term htarget
  have hparent : ((released victim k₁).pcb q).parent = (k.pcb q).parent :=
    congrFun (congrArg Links.parent hreleased) q
  have hesp : ((released victim k₁).pcb q).esp = (k.pcb q).esp :=
    (released_frame victim q k₁).2.1.trans (hpcb q).2.2.1
  rw [hparent] at hp
  rw [hesp]
  rw [released_target_array hF htarget] at hq
  by_cases hqv : q = victim
  · rw [hqv, Function.update_self] at hq
    cases hq
  · rw [Function.update_of_ne hqv] at hq
    exact h.recorded q parent hq hp

/-- Whatever becomes of the target's terminal, the others keep their processes. -/
theorem released_running_pid {status : UInt8} {fr : Frame} {k₁ : Kernel} {victim : Pid}
    {t u : TermId} (hF : Refines k.links F)
    (htarget : halt_target status fr k.cli = some (victim, t, k₁)) (next : Option Pid)
    (hu : u ≠ t) :
    ((released victim k₁).modTerm t fun i => { i with running_pid := next }).running_pid u =
      k.running_pid u := by
  have hreleased := released_target_links (k := k.cli) hF.cur_term htarget
  rw [set_running_pid_of_ne _ _ _ _ hu]
  exact congrFun (congrArg Links.running_pid hreleased) u

/-- And they keep their entry points. -/
theorem released_waiting {status : UInt8} {fr : Frame} {k₁ : Kernel} {victim : Pid}
    {t u : TermId} {q : Pid} (hF : Refines k.links F) (h : StacksSeparate k)
    (htarget : halt_target status fr k.cli = some (victim, t, k₁)) (next : Option Pid)
    (hu : u ≠ t)
    (hq : ((released victim k₁).modTerm t fun i => { i with running_pid := next }).running_pid u =
      some q) :
    StackOk q
      (((released victim k₁).modTerm t fun i => { i with running_pid := next }).term u).esp0 := by
  rw [released_running_pid hF htarget next hu] at hq
  rw [modTerm_term_of_ne _ _ _ _ hu]
  exact halt_target_stacks hF h htarget u q hu hq

/-- A process with a parent ends: the parent enters the kernel where its PCB says. -/
theorem return_to_parent_stacks {status : UInt8} {fr : Frame} {k₁ : Kernel} {victim parent : Pid}
    {t : TermId} (hF : Refines k.links F) (h : StacksSeparate k)
    (htarget : halt_target status fr k.cli = some (victim, t, k₁))
    (hparent : (k.pcb victim).parent = some parent) :
    StacksSeparate (return_to_parent status victim parent t (released victim k₁)).1 := by
  obtain ⟨hwhom, -, -⟩ := halt_target_links (k := k.cli) hF.cur_term htarget
  obtain ⟨-, -, -, -, -, hpcb⟩ := halt_target_frame htarget
  have hvictim : k.running_pid t = some victim := HaltTarget.top hwhom hF
  have hlive : k.pid_array victim = true :=
    (hF.stacked.used victim).mpr ⟨t, hF.stacked.mem_top hvictim⟩
  have hreleased := released_target_links (k := k.cli) hF.cur_term htarget
  have hrun : (released victim k₁).running_term = t := congrArg Links.running_term hreleased
  have hown : ((released victim k₁).pcb parent).pid = parent :=
    (congrFun (congrArg Links.pid hreleased) parent).trans
      (hF.stacked.parent_own hvictim hparent)
  have hesp : ((released victim k₁).pcb victim).esp = (k.pcb victim).esp :=
    (released_frame victim victim k₁).2.1.trans (hpcb victim).2.2.1
  refine ⟨?_, fun u q hu hq => ?_, released_recorded hF h htarget, ?_⟩
  · show StackOk ((released victim k₁).pcb parent).pid ((released victim k₁).pcb victim).esp
    rw [hown, hesp]
    exact h.recorded victim parent hlive hparent
  · have hut : u ≠ t := fun hut => hu (hut.trans hrun.symm)
    exact released_waiting hF h htarget _ hut hq
  · refine h.moves.mono fun u hu hnone => ?_
    by_cases hut : u = t
    · rw [hut] at hnone
      cases (set_running_pid_self _ _ _).symm.trans hnone
    · exact hu ((released_running_pid hF htarget _ hut).symm.trans hnone)

/-- Terminal `t` is emptied and the displayed one gets a process: still no lone terminal
other than terminal 0. -/
theorem restart_moves {t : TermId} (hmoves : SchedulerMoves fun u => k.running_pid u ≠ none)
    (hwhere : k.curr_term = t ∨ (k.running_pid k.curr_term = none ∧
      (t ≠ 0 ∨ ∃ u, u ≠ t ∧ k.running_pid u ≠ none))) :
    SchedulerMoves fun u => u = k.curr_term ∨ (u ≠ t ∧ k.running_pid u ≠ none) := by
  rcases hwhere with hct | ⟨hnone, hleft⟩
  · refine hmoves.mono fun u hu => ?_
    by_cases hut : u = t
    · exact Or.inl (hut.trans hct.symm)
    · exact Or.inr ⟨hut, hu⟩
  · have hidle : ∀ u, k.running_pid u ≠ none → u ≠ k.curr_term := by
      intro u hu huc
      rw [huc] at hu
      exact hu hnone
    by_cases ht : t = 0
    · -- terminals 1 and 2 are the displayed one and another with a process
      rcases hleft with hne | ⟨u, hut, hu⟩
      · exact absurd ht hne
      · have hthree : ∀ c v : TermId, v ≠ 0 → v ≠ c → c ≠ 0 →
            (1 = c ∨ 1 = v) ∧ (2 = c ∨ 2 = v) := by decide
        by_cases hc : k.curr_term = 0
        · exact Or.inl (Or.inl hc.symm)
        · rw [ht] at hut
          obtain ⟨h1, h2⟩ := hthree k.curr_term u hut (hidle u hu) hc
          rw [ht]
          refine Or.inr ⟨h1.imp id fun h => ?_, h2.imp id fun h => ?_⟩
          · exact ⟨by decide, h ▸ hu⟩
          · exact ⟨by decide, h ▸ hu⟩
    · rcases hmoves with h0 | ⟨h1, h2⟩
      · exact Or.inl (Or.inr ⟨Ne.symm ht, h0⟩)
      · -- only terminal 0 is without a process, and it is on display
        have hthree : ∀ c : TermId, 1 ≠ c → 2 ≠ c → 0 = c := by decide
        exact Or.inl (Or.inl (hthree k.curr_term (hidle 1 h1) (hidle 2 h2)))

/-- The last process of a terminal ends: the new shell starts on the terminal on display,
which has no process to take for a parent. -/
theorem restart_stacks {status : UInt8} {fr frShell : Frame} {k₁ : Kernel} {victim : Pid}
    {t : TermId} {e : ℕ} (hF : Refines k.links F) (h : StacksSeparate k)
    (hok : KeepsStacks m k (.halt status fr frShell))
    (htarget : halt_target status fr k.cli = some (victim, t, k₁))
    (hroot : (k.pcb victim).parent = none)
    (hex : execute_func m .kernel m.shell frShell
      ((released victim k₁).modTerm t fun i => { i with running_pid := none }) =
        some (k', .enterUser e)) : StacksSeparate k' := by
  obtain ⟨hwhom, hcurr, -⟩ := halt_target_links (k := k.cli) hF.cur_term htarget
  -- Ctrl+C takes the terminal on display; otherwise the caller itself ends
  have hwhere : k.curr_term = t ∨ (k.running_pid k.curr_term = none ∧
      (t ≠ 0 ∨ ∃ u, u ≠ t ∧ k.running_pid u ≠ none)) := by
    unfold HaltTarget at hwhom
    by_cases hs : status = 1
    · rw [if_pos hs] at hwhom
      exact Or.inl hwhom.2.symm
    · rw [if_neg hs] at hwhom
      obtain ⟨rfl, rfl⟩ := hwhom
      exact hok hs hroot
  rcases execute_func_cases hex with ⟨fs, -, hout, -⟩ | ⟨x, -, -, hout, -⟩ |
    ⟨x, p, -, hfree, -, -, frame, console, -, rfl⟩
  · cases hout
  · cases hout
  have hcurr' : ((released victim k₁).modTerm t
      fun i => { i with running_pid := none }).curr_term = k.curr_term := hcurr
  apply StacksSeparate.start
  · intro u q _ hq
    have hut : u ≠ t := by
      intro hut
      rw [hut, set_running_pid_self] at hq
      cases hq
    exact released_waiting hF h htarget none hut hq
  · exact released_recorded hF h htarget
  · intro parent hpar
    exfalso
    rw [hcurr'] at hpar
    by_cases hct : k.curr_term = t
    · rw [hct, set_running_pid_self] at hpar
      cases hpar
    · rw [released_running_pid hF htarget none hct, (hwhere.resolve_left hct).1] at hpar
      cases hpar
  · rw [hcurr']
    refine (restart_moves h.moves hwhere).mono fun u hu => ?_
    refine hu.imp id fun ⟨hut, hbusy⟩ => ?_
    rw [released_running_pid hF htarget none hut]
    exact hbusy

theorem halt_stacks {status : UInt8} {fr frShell : Frame} (hF : Refines k.links F)
    (h : StacksSeparate k) (hok : KeepsStacks m k (.halt status fr frShell))
    (hs : halt_func m status fr frShell k = some (k', out)) : StacksSeparate k' := by
  obtain ⟨victim, t, k₁, htarget, -, hend⟩ := halt_func_cases hs
  obtain ⟨-, -, hlinks⟩ := halt_target_links (k := k.cli) hF.cur_term htarget
  have hparent : (k₁.pcb victim).parent = (k.pcb victim).parent :=
    congrFun (congrArg Links.parent hlinks) victim
  rcases hend with ⟨parent, hp, heq⟩ | ⟨hp, e, -, hex⟩
  · rw [hparent] at hp
    rw [show k' = (return_to_parent status victim parent t (released victim k₁)).1 from
      congrArg Prod.fst heq]
    exact return_to_parent_stacks hF h htarget hp
  · rw [hparent] at hp
    exact restart_stacks hF h hok htarget hp hex

/-- A call that starts and ends no process. -/
theorem Quiet.separate (hquiet : Quiet k k') (h : StacksSeparate k) : StacksSeparate k' := by
  have hlinks := hquiet.links_eq
  obtain ⟨table, freq, paging, console, fs, frame, -, rfl⟩ := hquiet
  exact h.congr hlinks rfl (fun p => update_field Pcb.esp p) fun t => update_field TermInfo.esp0 t

/-- Every operation that `KeepsStacks` keeps the kernel stacks separate. -/
theorem step_stacks {e : Event} (hF : Refines k.links F) (h : StacksSeparate k)
    (hok : KeepsStacks m k e) (hs : step m k e = some (k', out)) : StacksSeparate k' := by
  rcases step_quiet hs with ⟨command, fr, rfl⟩ | ⟨status, fr, frShell, rfl⟩ |
    ⟨t, fr, frShell, rfl⟩ | ⟨fr, rfl⟩ | ⟨hquiet, -⟩
  · exact execute_stacks hF h hok hs
  · exact halt_stacks hF h hok hs
  · exact launch_term_stacks hF h hok hs
  · exact tick_stacks hF h (step_tick hs).1
  · exact hquiet.separate h

end

/-- The first shell is on its own stack. -/
theorem started_stacks {m : Machine} {mem : BootMemory} {k : Kernel} (h : Started m mem k) :
    StacksSeparate k := by
  obtain ⟨fr, e, hex⟩ := h
  rcases execute_func_cases hex with ⟨fs, -, hout, -⟩ | ⟨x, -, -, hout, -⟩ |
    ⟨x, p, -, -, -, -, frame, console, -, rfl⟩
  · cases hout
  · cases hout
  · apply StacksSeparate.start
    · intro t q _ hq
      cases hq
    · intro q parent hq _
      cases hq
    · intro parent hp
      cases hp
    · exact Or.inl (Or.inl rfl)

theorem stacksSeparate_of_run {m : Machine} {k : Kernel}
    (h : ReachableWhere m (KeepsStacks m) k) : StacksSeparate k := by
  refine System.ReachableWhere.invariant h (fun k h0 => ?_) fun k e k' hr hk hok hstep => ?_
  · obtain ⟨mem, -, hstart⟩ := h0
    exact started_stacks hstart
  · obtain ⟨F, hF⟩ := (reachable_of_boot hr).refines
    obtain ⟨out, hs⟩ := system_step_iff.mp hstep
    exact step_stacks hF hk hok hs

/-- In every run of operations that keep the stacks separate, the process about to run
enters the kernel on its own stack, and on no other process's. -/
theorem kernel_stacks_isolated {m : Machine} {k : Kernel}
    (h : ReachableWhere m (KeepsStacks m) k) :
    get_specific_pcb k.cur_pid + sizeof_pcb < k.tss.esp0.toNat ∧
      k.tss.esp0.toNat ≤ _8MB - _8KB * k.cur_pid ∧
      ∀ p, StackOk p k.tss.esp0 → p = k.cur_pid := by
  have hok := (stacksSeparate_of_run h).running
  exact ⟨hok.1, hok.2, fun p hp => hp.unique hok⟩

/-- The first shell runs a program from the terminal on display, on its own stack. -/
theorem sampleKernel_execute {command : Bytes} {k : Kernel} {out : Outcome}
    (hstep : step sampleMachine sampleKernel (.execute command sampleFrame) = some (k, out)) :
    ReachableWhere sampleMachine (KeepsStacks sampleMachine) k := by
  have hkeeps : KeepsStacks sampleMachine sampleKernel (.execute command sampleFrame) :=
    fun _ _ => Or.inl (by decide +kernel)
  exact .step (.init ⟨sampleMemory, trivial, sampleKernel_started⟩) hkeeps
    (system_step_iff.mpr ⟨out, hstep⟩)

/-- Its program is on its own stack as well. -/
theorem kernel_stacks_isolated_child : ∃ k, ReachableWhere sampleMachine
    (KeepsStacks sampleMachine) k ∧ k.cur_pid = 1 ∧
    get_specific_pcb k.cur_pid + sizeof_pcb < k.tss.esp0.toNat ∧
      k.tss.esp0.toNat ≤ _8MB - _8KB * k.cur_pid ∧
      ∀ p, StackOk p k.tss.esp0 → p = k.cur_pid := by
  have hrun : (step sampleMachine sampleKernel (.execute sampleMachine.shell sampleFrame)).any
      (fun r => decide (r.1.cur_pid = 1)) = true := by
    decide +kernel
  rw [Option.any_eq_true] at hrun
  obtain ⟨⟨k, out⟩, hstep, hcur⟩ := hrun
  rw [decide_eq_true_eq] at hcur
  have hreach := sampleKernel_execute hstep
  exact ⟨k, hreach, hcur, kernel_stacks_isolated hreach⟩

/-- A program of the first shell ends, terminal 1 is opened, and its shell gets the
program's process number. The next tick lets the first shell run with the entry point of
the program, which is now the stack of the other shell. -/
theorem kernel_stacks_shared : ¬ ∀ k, Reachable sampleMachine k →
    get_specific_pcb k.cur_pid + sizeof_pcb < k.tss.esp0.toNat ∧
      k.tss.esp0.toNat ≤ _8MB - _8KB * k.cur_pid := by
  intro hall
  obtain ⟨k, hreach, hcheck⟩ := sampleRun_exists
    [.execute sampleMachine.shell sampleFrame, .halt 0 sampleFrame sampleFrame,
      .launch_term 1 sampleFrame sampleFrame, .tick sampleFrame]
    (fun k => decide (k.cur_pid = 0 ∧ k.pid_array 1 = true ∧ StackOk 1 k.tss.esp0))
    (by decide +kernel)
  rw [decide_eq_true_eq] at hcheck
  obtain ⟨hcur, -, hother⟩ := hcheck
  have hown : StackOk 0 k.tss.esp0 := hcur ▸ hall k hreach
  exact absurd (hown.unique hother) (by decide)

/-! ## One `execute` and the `halt` that ends it -/

/-- The system calls that can return to the program that made them. -/
def Event.OwnCall : Event → Prop
  | .halt _ _ _ => False
  | .launch_term _ _ _ => False
  | .tick _ => False
  | _ => True

/-- The running process makes system calls, all of which return to it. -/
inductive OwnCalls (m : Machine) : Kernel → Kernel → Prop
  | refl (k : Kernel) : OwnCalls m k k
  | call {k k' k'' : Kernel} {e : Event} {v : ℤ} : OwnCalls m k k' → e.OwnCall →
      step m k' e = some (k'', .ret v) → OwnCalls m k k''

/-- What such calls leave alone. -/
structure SameProcesses (k k' : Kernel) : Prop where
  links : k'.links = k.links
  curr_term : k'.curr_term = k.curr_term
  tss : k'.tss = k.tss
  frames : ∀ p, (k'.pcb p).caller = (k.pcb p).caller ∧ (k'.pcb p).esp = (k.pcb p).esp ∧
    (k'.pcb p).ebp = (k.pcb p).ebp

theorem OwnCalls.same {m : Machine} {k k' : Kernel} (h : OwnCalls m k k') :
    SameProcesses k k' := by
  induction h with
  | refl => exact ⟨rfl, rfl, rfl, fun p => ⟨rfl, rfl, rfl⟩⟩
  | @call k' k'' e v _ hown hs ih =>
    have hstep : SameProcesses k' k'' := by
      rcases step_quiet hs with ⟨command, fr, rfl⟩ | ⟨status, fr, frShell, rfl⟩ |
        ⟨t, fr, frShell, rfl⟩ | ⟨fr, rfl⟩ | ⟨hquiet, -⟩
      · rcases execute_func_cases hs with ⟨fs, -, -, rfl⟩ | ⟨x, -, -, -, console, -, rfl⟩ |
          ⟨x, p, -, -, -, hout, -⟩
        · exact ⟨rfl, rfl, rfl, fun p => ⟨rfl, rfl, rfl⟩⟩
        · exact ⟨rfl, rfl, rfl, fun p => ⟨rfl, rfl, rfl⟩⟩
        · cases hout
      · exact hown.elim
      · exact hown.elim
      · exact hown.elim
      · have hlinks := hquiet.links_eq
        obtain ⟨table, freq, paging, console, fs, frame, -, rfl⟩ := hquiet
        exact ⟨hlinks, rfl, rfl, fun p => ⟨update_field Pcb.caller p,
          update_field Pcb.esp p, update_field Pcb.ebp p⟩⟩
    exact ⟨hstep.links.trans ih.links, hstep.curr_term.trans ih.curr_term,
      hstep.tss.trans ih.tss, fun p => ⟨(hstep.frames p).1.trans (ih.frames p).1,
        (hstep.frames p).2.1.trans (ih.frames p).2.1,
        (hstep.frames p).2.2.trans (ih.frames p).2.2⟩⟩

/-- One round: the running process of `k` starts a program with kernel entry `fr`, the
program makes calls of its own and halts with `status`, which is not 1. -/
structure Round (m : Machine) (k : Kernel) (fr : Frame) (status : UInt8) (k' : Kernel)
    (out : Outcome) : Prop where
  display : k.running_term = k.curr_term
  not_one : status ≠ 1
  run : ∃ command e k₁ k₂ fr' frShell,
    step m k (.execute command fr) = some (k₁, .enterUser e) ∧ OwnCalls m k₁ k₂ ∧
      step m k₂ (.halt status fr' frShell) = some (k', out)

/-- Everything is as it was, and the caller of `execute` gets the status. -/
structure Restored (m : Machine) (k : Kernel) (fr : Frame) (status : UInt8) (k' : Kernel)
    (out : Outcome) : Prop where
  cur_pid : k'.cur_pid = k.cur_pid
  running_term : k'.running_term = k.running_term
  running_pid : ∀ t, k'.running_pid t = k.running_pid t
  pid_array : k'.pid_array = k.pid_array
  mapped : ∀ mem va, va.toNat / four_MB = _128MB / four_MB →
    translate m.layout k'.paging mem va = translate m.layout k.paging mem va
  ss0 : k'.tss.ss0 = k.tss.ss0
  esp0 : k'.tss.esp0 = k.tss.esp0
  result : out = .resume (.process k.cur_pid) (fr.esp k) fr.ebp status.toNat

/-- A process attached and detached again leaves the process table and the terminals as
they were. -/
theorem attach_detach {l : Links} {k' : Kernel} {t : TermId} {p c : Pid}
    (hfree : l.pid_array p = false) (htop : l.running_pid t = some c) (hown : l.pid c = c)
    (hcp : c ≠ p) (h : k'.links = (l.attach t p).detach p t c) :
    k'.cur_pid = c ∧ k'.running_term = t ∧ (∀ u, k'.running_pid u = l.running_pid u) ∧
      k'.pid_array = l.pid_array := by
  have hpid : (l.attach t p).pid c = c := (Function.update_of_ne hcp ..).trans hown
  have hself : (l.attach t p).pid p = p := Function.update_self ..
  refine ⟨(congrArg Links.cur_pid h).trans hpid, congrArg Links.running_term h, fun u => ?_, ?_⟩
  · refine (congrFun (congrArg Links.running_pid h) u).trans ?_
    show Function.update (Function.update l.running_pid t (some p)) t
      (some ((l.attach t p).pid c)) u = l.running_pid u
    rw [hpid, Function.update_idem, ← htop, Function.update_eq_self]
  · refine (congrArg Links.pid_array h).trans ?_
    show Function.update (Function.update l.pid_array p true) ((l.attach t p).pid p) false =
      l.pid_array
    rw [hself, Function.update_idem, ← hfree, Function.update_eq_self]

/-- After a round the caller of `execute` runs again, with the result, among the same
processes and on the same terminal; but its kernel stack begins where its call had
arrived. -/
theorem Round.spec {m : Machine} {k k' : Kernel} {fr : Frame} {status : UInt8} {out : Outcome}
    {F : Forest TermId Pid} (hF : Refines k.links F) (h : Round m k fr status k' out) :
    k'.cur_pid = k.cur_pid ∧ k'.running_term = k.running_term ∧
      (∀ t, k'.running_pid t = k.running_pid t) ∧ k'.pid_array = k.pid_array ∧
      k'.curr_term = k.curr_term ∧ k'.tss.esp0 = fr.esp k ∧
      out = .resume (.process k.cur_pid) (fr.esp k) fr.ebp status.toNat := by
  obtain ⟨command, e, k₁, k₂, fr', frShell, hex, hcalls, hhalt⟩ := h.run
  have hcur : k.running_pid k.running_term = some k.cur_pid := hF.cur
  have hown : (k.pcb k.cur_pid).pid = k.cur_pid := hF.cur_own
  rcases execute_func_cases hex with ⟨fs, -, hout, -⟩ | ⟨x, -, -, hout, -⟩ |
    ⟨x, p, -, hfree, -, -, frame, console, -, hk₁⟩
  · cases hout
  · cases hout
  -- the program does not take the slot of its parent
  have hcp : k.cur_pid ≠ p := by
    intro hcp
    have hlive : k.pid_array k.cur_pid = true := hF.cur_used
    rw [hcp, hfree] at hlive
    cases hlive
  -- the program's own calls change neither the processes nor what its PCB records
  have hsame := hcalls.same
  have hlinks₂ : k₂.links = k.links.attach k.curr_term p := by
    rw [hsame.links, hk₁, links_started]
  have hF₂ := hF.attach (t := k.curr_term) (p := p) hfree
  rw [← hlinks₂] at hF₂
  obtain ⟨hcur₂, hparent₂, -, -, -, -⟩ := attached_fields hlinks₂
  have hparent₂' : (k₂.pcb k₂.cur_pid).parent = some k.cur_pid := by
    rw [hcur₂, hparent₂, ← h.display]
    exact hcur
  obtain ⟨hcaller, hesp, hebp⟩ : (k₂.pcb p).caller = .process k.cur_pid ∧
      (k₂.pcb p).esp = fr.esp k ∧ (k₂.pcb p).ebp = fr.ebp := by
    have hframes := hsame.frames p
    rw [hk₁, started_pcb_self] at hframes
    exact hframes
  obtain ⟨victim, t, k₃, htarget, hclose, -⟩ := halt_func_cases hhalt
  obtain ⟨hwhom, -, -⟩ := halt_target_links (k := k₂.cli) hF₂.cur_term htarget
  -- status 1 would end the process on display instead
  obtain ⟨rfl, rfl⟩ : victim = k₂.cur_pid ∧ t = k₂.running_term := by
    unfold HaltTarget at hwhom
    rw [if_neg h.not_one] at hwhom
    exact hwhom
  obtain ⟨k₄, hhalt', hlinks, htss, -, -, hcurr⟩ := halt_func_of_parent m frShell hF₂.cur_term
    htarget ((halt_target_closable htarget _).mp hclose) hparent₂'
  rw [show halt_func m status fr' frShell k₂ = some (k', out) from hhalt, Option.some.injEq,
    Prod.mk.injEq] at hhalt'
  obtain ⟨rfl, rfl⟩ := hhalt'
  have hrun₂ : k₂.running_term = k.curr_term := congrArg Links.running_term hlinks₂
  rw [hcur₂] at htss hlinks ⊢
  rw [hrun₂, hlinks₂] at hlinks
  have htop : k.links.running_pid k.curr_term = some k.cur_pid := h.display ▸ hcur
  obtain ⟨hc, hr, hru, hpa⟩ := attach_detach hfree htop hown hcp hlinks
  refine ⟨hc, hr.trans h.display.symm, hru, hpa, ?_, ?_, ?_⟩
  · rw [hcurr, hsame.curr_term, hk₁]
    rfl
  · rw [htss]
    exact hesp
  · rw [hcaller, hesp, hebp]

/-- The entry points of the kernel stack after rounds with these kernel entries. -/
def lowered (esp0 : UInt32) (frs : List Frame) : UInt32 :=
  frs.foldl (fun esp fr => esp - fr.pushed) esp0

/-- The running process starts and ends one program after another. -/
inductive Rounds (m : Machine) : Kernel → List Frame → Kernel → Prop
  | refl (k : Kernel) : Rounds m k [] k
  | round {k k' k'' : Kernel} {fr : Frame} {frs : List Frame} {status : UInt8} {out : Outcome} :
      Rounds m k frs k' → Round m k' fr status k'' out → Rounds m k (frs ++ [fr]) k''

theorem OwnCalls.reachable {m : Machine} {k k' : Kernel} (hk : Reachable m k)
    (h : OwnCalls m k k') : Reachable m k' := by
  induction h with
  | refl => exact hk
  | call _ _ hs ih => exact System.ReachableWhere.step ih trivial (system_step_iff.mpr ⟨_, hs⟩)

/-- A round is a run of operations. -/
theorem Round.reachable {m : Machine} {k k' : Kernel} {fr : Frame} {status : UInt8}
    {out : Outcome} (hk : Reachable m k) (h : Round m k fr status k' out) : Reachable m k' := by
  obtain ⟨command, e, k₁, k₂, fr', frShell, hex, hcalls, hhalt⟩ := h.run
  have hk₁ : Reachable m k₁ :=
    System.ReachableWhere.step hk trivial (system_step_iff.mpr ⟨_, hex⟩)
  exact System.ReachableWhere.step (hcalls.reachable hk₁) trivial (system_step_iff.mpr ⟨_, hhalt⟩)

/-- The drift of many rounds is the sum of the drift of each. -/
theorem Rounds.esp0 {m : Machine} {k k' : Kernel} {frs : List Frame} (hk : Reachable m k)
    (h : Rounds m k frs k') :
    Reachable m k' ∧ k'.cur_pid = k.cur_pid ∧ k'.tss.esp0 = lowered k.tss.esp0 frs := by
  induction h with
  | refl => exact ⟨hk, rfl, rfl⟩
  | @round k' k'' fr frs status out _ hround ih =>
    obtain ⟨hk', hcur, hesp⟩ := ih
    obtain ⟨F, hF⟩ := hk'.refines
    obtain ⟨hcur', -, -, -, -, hesp', -⟩ := hround.spec hF
    refine ⟨hround.reachable hk', hcur'.trans hcur, ?_⟩
    show k''.tss.esp0 = lowered k.tss.esp0 (frs ++ [fr])
    unfold lowered at hesp ⊢
    rw [List.foldl_append, ← hesp]
    exact hesp'

/-- No round restores the kernel stack top of the process that called `execute`: each one
lowers it by what the call had pushed. Everything else about the processes is restored. -/
theorem round_lowers_stack {m : Machine} {k k' : Kernel} {fr : Frame} {status : UInt8}
    {out : Outcome} (h : Reachable m k) (hround : Round m k fr status k' out) :
    ¬ Restored m k fr status k' out ∧ k'.tss.esp0 = k.tss.esp0 - fr.pushed ∧
      k'.cur_pid = k.cur_pid ∧ k'.running_term = k.running_term ∧
      (∀ t, k'.running_pid t = k.running_pid t) ∧ k'.pid_array = k.pid_array ∧
      out = .resume (.process k.cur_pid) (fr.esp k) fr.ebp status.toNat := by
  obtain ⟨F, hF⟩ := h.refines
  obtain ⟨hcur, hrun, htop, harray, -, hesp, hout⟩ := hround.spec hF
  have hlower : k'.tss.esp0 = k.tss.esp0 - fr.pushed := hesp
  refine ⟨fun hrest => ?_, hlower, hcur, hrun, htop, harray, hout⟩
  have hsame : k.tss.esp0 - fr.pushed = k.tss.esp0 := hlower.symm.trans hrest.esp0
  exact fr.pushed_pos (by grind)

/-- The first shell runs a program which ends at once. -/
theorem sampleKernel_round : ∃ k' out, Round sampleMachine sampleKernel sampleFrame 0 k' out := by
  have hrun : ((step sampleMachine sampleKernel (.execute sampleMachine.shell sampleFrame)).any
      fun r => decide (r.2 = .enterUser LOAD_START) &&
        (step sampleMachine r.1 (.halt 0 sampleFrame sampleFrame)).isSome) = true := by
    decide +kernel
  rw [Option.any_eq_true] at hrun
  obtain ⟨⟨k₁, out₁⟩, hex, hcheck⟩ := hrun
  rw [Bool.and_eq_true, decide_eq_true_eq, Option.isSome_iff_exists] at hcheck
  obtain ⟨rfl, ⟨k', out⟩, hhalt⟩ := hcheck
  exact ⟨k', out, { display := by decide +kernel, not_one := by decide
                    run := ⟨_, LOAD_START, k₁, k₁, _, _, hex, .refl k₁, hhalt⟩ }⟩

/-- The first shell is back, with its kernel stack a hundred bytes shorter. -/
theorem round_lowers_stack_shell : ∃ k' out,
    Round sampleMachine sampleKernel sampleFrame 0 k' out ∧
      ¬ Restored sampleMachine sampleKernel sampleFrame 0 k' out ∧
      k'.tss.esp0 = sampleKernel.tss.esp0 - 100 := by
  obtain ⟨k', out, hround⟩ := sampleKernel_round
  have hreach : Reachable sampleMachine sampleKernel :=
    .init ⟨sampleMemory, trivial, sampleKernel_started⟩
  obtain ⟨hnot, hlower, -⟩ := round_lowers_stack hreach hround
  exact ⟨k', out, hround, hnot, hlower⟩

/-- The first shell's program does not give the kernel stack back. -/
theorem round_not_restored : ¬ ∀ k fr status k' out, Reachable sampleMachine k →
    Round sampleMachine k fr status k' out → Restored sampleMachine k fr status k' out := by
  intro hall
  obtain ⟨k', out, hround⟩ := sampleKernel_round
  have hreach : Reachable sampleMachine sampleKernel :=
    .init ⟨sampleMemory, trivial, sampleKernel_started⟩
  obtain ⟨F, hF⟩ := hreach.refines
  obtain ⟨-, -, -, -, -, hesp, -⟩ := hround.spec hF
  have hsame : k'.tss.esp0 = sampleKernel.tss.esp0 := (hall _ _ _ _ _ hreach hround).esp0
  exact absurd (hesp.symm.trans hsame) (by decide +kernel)

end Kernel391
