import Kernel391.Callers
import Kernel391.Interleaving

/-!
# A process and the program it waits for

`execute` comes back when the program it has started ends. In the meantime that program may be
interrupted and start programs of its own, terminals are switched and Ctrl+C is typed; the
caller's frame lies on its kernel stack, and the PCB of the new process is what points to it.

`execute_comes_back` follows a call from its start to the step that returns to it, through
the ticks, keys, terminal switches and calls of other processes in between. It needs the call to
be made from the terminal on display: otherwise the new process is not the child of its caller.
And it needs every process to enter the kernel on its own stack (`KeepsStacks`): otherwise the
caller's frame may be written over.
-/

namespace Kernel391

open PointerChain TransitionSystem

/-! ## Where a process has been called from -/

/-- The record of who called for `q` is the same. -/
structure SameLineage (q : Pid) (k k' : Kernel) : Prop where
  parent : (k'.pcb q).parent = (k.pcb q).parent
  caller : (k'.pcb q).caller = (k.pcb q).caller
  esp : (k'.pcb q).esp = (k.pcb q).esp
  ebp : (k'.pcb q).ebp = (k.pcb q).ebp

/-- Process `q` has just been started by an `execute` of `caller` with kernel entry `fr`. -/
structure StartedBy (caller : Caller) (fr : Frame) (k k' : Kernel) (q : Pid) : Prop where
  free : k.pid_array q = false
  current : k'.cur_pid = q
  parent : (k'.pcb q).parent = k.running_pid k.curr_term
  caller : (k'.pcb q).caller = caller
  esp : (k'.pcb q).esp = fr.esp k
  ebp : (k'.pcb q).ebp = fr.ebp

section
variable {m : Machine} {k k' : Kernel} {out : Outcome} {p q : Pid}

theorem SameLineage.of_pcb (h : k'.pcb q = k.pcb q) : SameLineage q k k' := by
  refine ⟨?_, ?_, ?_, ?_⟩
  · rw [h]
  · rw [h]
  · rw [h]
  · rw [h]

theorem SameLineage.trans {k₁ : Kernel} (h : SameLineage q k k₁) (h' : SameLineage q k₁ k') :
    SameLineage q k k' :=
  ⟨h'.parent.trans h.parent, h'.caller.trans h.caller, h'.esp.trans h.esp, h'.ebp.trans h.ebp⟩

/-- A store to other fields of a PCB. -/
theorem SameLineage.of_update {i : Pid} {b : Pcb} (hpcb : k'.pcb = Function.update k.pcb i b)
    (hparent : b.parent = (k.pcb i).parent) (hcaller : b.caller = (k.pcb i).caller)
    (hesp : b.esp = (k.pcb i).esp) (hebp : b.ebp = (k.pcb i).ebp) : SameLineage q k k' := by
  refine ⟨?_, ?_, ?_, ?_⟩
  · rw [hpcb]
    exact update_field Pcb.parent q hparent
  · rw [hpcb]
    exact update_field Pcb.caller q hcaller
  · rw [hpcb]
    exact update_field Pcb.esp q hesp
  · rw [hpcb]
    exact update_field Pcb.ebp q hebp

/-- After `execute` a process is one of those before, or it has just been started. -/
theorem execute_func_lineage {caller : Caller} {command : Bytes} {fr : Frame}
    (h : execute_func m caller command fr k = some (k', out)) (q : Pid) :
    k'.pid_array q = k.pid_array q ∧ SameLineage q k k' ∨
      StartedBy caller fr k k' q ∧ (∃ x, check_command m.img command fr k.fs = .accept x) ∧
        ∃ e, out = .enterUser e := by
  rcases execute_func_cases h with ⟨fs, -, -, rfl⟩ | ⟨x, -, -, -, console, -, rfl⟩ |
    ⟨x, c, hcheck, hfree, -, hout, frame, console, -, rfl⟩
  · exact Or.inl ⟨rfl, .of_pcb rfl⟩
  · exact Or.inl ⟨rfl, .of_pcb rfl⟩
  by_cases hq : q = c
  · refine Or.inr ⟨⟨hq ▸ hfree, hq.symm, ?_, ?_, ?_, ?_⟩, ⟨x, hcheck⟩, _, hout⟩
    · rw [hq, started_pcb_self]
      rfl
    · rw [hq, started_pcb_self]
      rfl
    · rw [hq, started_pcb_self]
      rfl
    · rw [hq, started_pcb_self]
      rfl
  · exact Or.inl ⟨Function.update_of_ne hq .., .of_pcb (started_pcb_of_ne _ _ _ _ _ _ _ _ hq)⟩

/-- What `halt` has freed before it goes on with the parent or a new shell. -/
theorem released_lineage {status : UInt8} {fr : Frame} {k₁ : Kernel} {victim : Pid} {t : TermId}
    {F : Forest TermId Pid} (hF : Refines k.links F)
    (h : halt_target status fr k.cli = some (victim, t, k₁)) (q : Pid) :
    SameLineage q k (released victim k₁) := by
  obtain ⟨-, -, -, -, -, hpcb⟩ := halt_target_frame h
  obtain ⟨-, hcaller, hesp, hebp⟩ := hpcb q
  obtain ⟨hcaller', hesp', hebp'⟩ := released_frame victim q k₁
  refine ⟨?_, hcaller'.trans hcaller, hesp'.trans hesp, hebp'.trans hebp⟩
  exact congrFun (congrArg Links.parent (released_target_links (k := k.cli) hF.cur_term h)) q

/-- What a step is to process `q`. -/
inductive Fate (m : Machine) (k k' : Kernel) (e : Event) (q : Pid) : Prop
  /-- Nothing, whether it is in use or not. -/
  | same : k'.pid_array q = k.pid_array q → SameLineage q k k' → Fate m k k' e q
  /-- The first shell of a terminal takes its slot. -/
  | shell : k.pid_array q = false → (k'.pcb q).caller = .kernel → Fate m k k' e q
  /-- A program that the running process has started takes its slot. -/
  | child {command : Bytes} {fr : Frame} : e = .execute command fr →
      (∃ x, check_command m.img command fr k.fs = .accept x) →
      StartedBy (.process k.cur_pid) fr k k' q → Fate m k k' e q
  /-- It ends. -/
  | halted {status : UInt8} {fr frShell : Frame} {t : TermId} : e = .halt status fr frShell →
      HaltTarget status k q t → (k'.pid_array q = false ∨
        (k.pcb q).parent = none ∧ (k'.pcb q).caller = .kernel) → Fate m k k' e q

theorem halt_func_fate {status : UInt8} {fr frShell : Frame} {F : Forest TermId Pid}
    (hF : Refines k.links F) (h : halt_func m status fr frShell k = some (k', out)) (q : Pid) :
    Fate m k k' (.halt status fr frShell) q := by
  obtain ⟨victim, t, k₁, htarget, -, hend⟩ := halt_func_cases h
  obtain ⟨hwhom, -, hlinks⟩ := halt_target_links (k := k.cli) hF.cur_term htarget
  have harray := released_target_array hF htarget
  have hlineage := released_lineage hF htarget q
  have hself : (released victim k₁).pid_array victim = false := by
    rw [harray, Function.update_self]
  have hothers (hq : q ≠ victim) : (released victim k₁).pid_array q = k.pid_array q := by
    rw [harray, Function.update_of_ne hq]
  rcases hend with ⟨parent, -, heq⟩ | ⟨hnone, e, -, hex⟩
  · rw [(Prod.mk.inj heq).1]
    by_cases hq : q = victim
    · exact .halted rfl (hq ▸ hwhom) (Or.inl (hq ▸ hself))
    · exact .same (hothers hq) (hlineage.trans (.of_pcb rfl))
  · have hroot : (k.pcb victim).parent = none :=
      (congrFun (congrArg Links.parent hlinks) victim).symm.trans hnone
    have hvacated : SameLineage q k
        ((released victim k₁).modTerm t fun i => { i with running_pid := none }) :=
      hlineage.trans (.of_pcb rfl)
    rcases execute_func_lineage hex q with ⟨hslot, hsame⟩ | ⟨hnew, -⟩
    · by_cases hq : q = victim
      · exact .halted rfl (hq ▸ hwhom) (Or.inl (hslot.trans (hq ▸ hself)))
      · exact .same (hslot.trans (hothers hq)) (hvacated.trans hsame)
    · by_cases hq : q = victim
      · exact .halted rfl (hq ▸ hwhom) (Or.inr ⟨hq ▸ hroot, hnew.caller⟩)
      · exact .shell ((hothers hq).symm.trans hnew.free) hnew.caller

theorem launch_term_fate {t : TermId} {fr frShell : Frame}
    (h : launch_term m t fr frShell k = some (k', out)) (q : Pid) :
    Fate m k k' (.launch_term t fr frShell) q := by
  rcases launch_term_cases h with ⟨-, rfl, -⟩ | ⟨-, -, old, -, r, hex, -⟩ | ⟨-, -, rfl, -⟩
  · exact .same rfl (.of_pcb rfl)
  · have hopen : SameLineage q k (opening t old fr k) := .of_update rfl rfl rfl rfl rfl
    rcases execute_func_lineage hex q with ⟨hslot, hsame⟩ | ⟨hnew, -⟩
    · exact .same hslot (hopen.trans hsame)
    · exact .shell hnew.free hnew.caller
  · exact .same rfl (.of_pcb rfl)

theorem step_fate {e : Event} {F : Forest TermId Pid} (hF : Refines k.links F)
    (hs : step m k e = some (k', out)) (q : Pid) : Fate m k k' e q := by
  rcases step_quiet hs with ⟨command, fr, rfl⟩ | ⟨status, fr, frShell, rfl⟩ |
    ⟨t, fr, frShell, rfl⟩ | ⟨fr, rfl⟩ | ⟨hquiet, -⟩
  · rcases execute_func_lineage hs q with ⟨hslot, hsame⟩ | ⟨hnew, haccept, -⟩
    · exact .same hslot hsame
    · exact .child rfl haccept hnew
  · exact halt_func_fate hF hs q
  · exact launch_term_fate hs q
  · rcases pit_interrupt_handler_cases hF.stacked.number (step_tick hs).1 with ⟨-, -, rfl⟩ |
      ⟨-, t, p, curr, -, -, rfl⟩
    · exact .same rfl (.of_pcb rfl)
    · exact .same rfl (.of_update rfl rfl rfl rfl rfl)
  · obtain ⟨table, freq, paging, console, fs, frame, -, rfl⟩ := hquiet
    exact .same rfl (.of_update rfl rfl rfl rfl rfl)

end

/-! ## The child a process waits for -/

/-- Whoever has been called for by `p` is its child. -/
def CallsItsChild (p : Pid) (k : Kernel) : Prop :=
  ∀ q, k.pid_array q = true → (k.pcb q).caller = .process p → (k.pcb q).parent = some p

/-- `p` itself starts programs from the terminal on display only. -/
def OwnForeground (m : Machine) (p : Pid) (k : Kernel) (e : Event) : Prop :=
  k.cur_pid = p → ForegroundExecute m k e

/-- The kernel goes back to the `execute` that `p` has called. -/
def ComesBack (p : Pid) : Outcome → Prop
  | .resume caller _ _ _ => caller = .process p
  | _ => False

instance (p : Pid) : DecidablePred (ComesBack p)
  | .resume caller _ _ _ => inferInstanceAs (Decidable (caller = .process p))
  | .ret _ => inferInstanceAs (Decidable False)
  | .enterUser _ => inferInstanceAs (Decidable False)

theorem comesBack_iff {p : Pid} {out : Outcome} :
    ComesBack p out ↔ ∃ esp ebp eax, out = .resume (.process p) esp ebp eax := by
  cases out with
  | ret v => simp [ComesBack]
  | enterUser e => simp [ComesBack]
  | resume caller esp ebp eax => simp [ComesBack]

/-- Process `p` waits in its `execute`, with its frame at `esp` and `ebp`, for `c` to end. -/
structure Waits (p c : Pid) (esp ebp : UInt32) (k : Kernel) : Prop where
  forest : ∃ F, Refines k.links F
  separate : StacksSeparate k
  calls : CallsItsChild p k
  used : k.pid_array c = true
  parent : (k.pcb c).parent = some p
  caller : (k.pcb c).caller = .process p
  esp : (k.pcb c).esp = esp
  ebp : (k.pcb c).ebp = ebp

section
variable {m : Machine} {k k' : Kernel} {e : Event} {out : Outcome} {p c : Pid}
  {F : Forest TermId Pid} {esp ebp : UInt32}

theorem CallsItsChild.step (h : CallsItsChild p k) (hF : Refines k.links F)
    (hown : OwnForeground m p k e) (hs : step m k e = some (k', out)) : CallsItsChild p k' := by
  intro q hq hcaller
  cases step_fate hF hs q with
  | same hslot hsame =>
    rw [hsame.parent]
    exact h q (hslot ▸ hq) (hsame.caller ▸ hcaller)
  | shell _ hkernel =>
    rw [hkernel] at hcaller
    cases hcaller
  | child heq haccept hnew =>
    -- the parent is what the display shows, and that is the caller
    have hcur : k.cur_pid = p := Caller.process.inj (hnew.caller.symm.trans hcaller)
    have hdisplay := hown hcur
    rw [heq] at hdisplay
    rw [hnew.parent, hdisplay haccept ⟨q, hnew.free⟩, ← hcur]
    exact hF.cur
  | halted _ _ hend =>
    rcases hend with hfree | ⟨-, hkernel⟩
    · rw [hfree] at hq
      cases hq
    · rw [hkernel] at hcaller
      cases hcaller

/-- Nobody but `c` has been called for by `p`, which does not run. -/
theorem Waits.below (h : Waits p c esp ebp k) :
    k.pid_array p = true ∧ (∀ t, k.running_pid t ≠ some p) ∧ k.cur_pid ≠ p := by
  obtain ⟨F, hF⟩ := h.forest
  obtain ⟨hused, htop⟩ := hF.stacked.parent_below h.used h.parent
  exact ⟨hused, htop, fun hcur => htop k.running_term (hcur ▸ hF.cur)⟩

/-- Nobody enters the kernel above the frame of `p`. -/
theorem Waits.not_overwrites (h : Waits p c esp ebp k) : ¬ Overwrites k.tss.esp0 esp := by
  obtain ⟨F, hF⟩ := h.forest
  rw [← h.esp]
  exact h.separate.not_overwrites hF h.used h.parent

/-- What happens meanwhile is no operation of `p`, and does not end it. -/
theorem Waits.notOf (h : Waits p c esp ebp k) (e : Event) : NotOf p k e := by
  obtain ⟨F, hF⟩ := h.forest
  obtain ⟨-, htop, hcur⟩ := h.below
  cases e with
  | launch_term t fr frShell => trivial
  | tick fr => trivial
  | halt status fr frShell =>
    refine ⟨hcur, fun t htarget => htop t ?_⟩
    exact htarget.top hF
  | execute command fr => exact hcur
  | open_file filename => exact hcur
  | close fd => exact hcur
  | vidmap screen_start => exact hcur
  | io console dir_number page position rtc_freq => exact hcur

theorem Waits.keepsOwn (h : Waits p c esp ebp k) (hok : KeepsStacks m k e)
    (hs : step m k e = some (k', out)) : Alive p k' ∧ KeepsOwn p k k' :=
  step_keepsOwn ⟨h.forest, h.separate, h.below.1⟩ (h.notOf e) hok hs

/-- The end of `c` keeps the stacks separate: it has a parent to go back to. -/
theorem Waits.halt_keeps {status : UInt8} {fr frShell : Frame} {t : TermId}
    (h : Waits p c esp ebp k) (htarget : HaltTarget status k c t) :
    KeepsStacks m k (.halt status fr frShell) := by
  intro hs hroot
  unfold HaltTarget at htarget
  rw [if_neg hs] at htarget
  rw [← htarget.1, h.parent] at hroot
  cases hroot

/-- What a `halt` of `c` comes to. -/
theorem Waits.halted {status : UInt8} {fr frShell : Frame} {t : TermId}
    (h : Waits p c esp ebp k) (hs : step m k (.halt status fr frShell) = some (k', out))
    (htarget : HaltTarget status k c t) :
    out = .resume (.process p) esp ebp status.toNat ∧ k'.cur_pid = p ∧ k'.pid_array c = false := by
  obtain ⟨F, hF⟩ := h.forest
  obtain ⟨victim, t', k₁, hchosen, hclose, -⟩ := halt_func_cases hs
  obtain ⟨hwhom, -, -⟩ := halt_target_links (k := k.cli) hF.cur_term hchosen
  obtain ⟨rfl, rfl⟩ : victim = c ∧ t' = t := HaltTarget.unique hwhom htarget
  obtain ⟨k₂, hhalt, hlinks, -⟩ := halt_func_of_parent m frShell hF.cur_term hchosen
    ((halt_target_closable hchosen _).mp hclose) h.parent
  rw [show halt_func m status fr frShell k = some (k', out) from hs, Option.some.injEq,
    Prod.mk.injEq] at hhalt
  obtain ⟨rfl, rfl⟩ := hhalt
  have htop : k.running_pid t' = some victim := htarget.top hF
  have hself : (k.pcb victim).pid = victim :=
    hF.stacked.own_pid victim ⟨t', hF.stacked.mem_top htop⟩
  have hown : (k.pcb p).pid = p := hF.stacked.parent_own htop h.parent
  refine ⟨by rw [h.caller, h.esp, h.ebp], (congrArg Links.cur_pid hlinks).trans hown, ?_⟩
  refine (congrFun (congrArg Links.pid_array hlinks) victim).trans ?_
  show Function.update k.pid_array (k.pcb victim).pid false victim = false
  rw [hself, Function.update_self]

/-- One step of the wait: it goes on, unless the kernel comes back to `p`. -/
theorem Waits.goes_on (h : Waits p c esp ebp k) (hok : KeepsStacks m k e)
    (hs : step m k e = some (k', out)) (hnot : ¬ ComesBack p out) : Waits p c esp ebp k' := by
  obtain ⟨F, hF⟩ := h.forest
  obtain ⟨F', -, hF'⟩ := step_refines hF hs
  have hstacks : StacksSeparate k' := step_stacks hF h.separate hok hs
  have hcalls : CallsItsChild p k' :=
    h.calls.step hF (fun hcur => absurd hcur h.below.2.2) hs
  cases step_fate hF hs c with
  | same hslot hsame =>
    exact ⟨⟨F', hF'⟩, hstacks, hcalls, hslot.trans h.used, hsame.parent.trans h.parent,
      hsame.caller.trans h.caller, hsame.esp.trans h.esp, hsame.ebp.trans h.ebp⟩
  | shell hfree _ =>
    -- nobody takes the slot while `c` is in use
    rw [h.used] at hfree
    cases hfree
  | child _ _ hnew =>
    have hfree := hnew.free
    rw [h.used] at hfree
    cases hfree
  | halted heq htarget _ =>
    rw [heq] at hs
    exact absurd (comesBack_iff.mpr ⟨esp, ebp, _, (h.halted hs htarget).1⟩) hnot

/-- Only a `halt` goes back to an `execute`. -/
theorem halt_of_comesBack (hs : step m k e = some (k', out)) (hback : ComesBack p out) :
    ∃ status fr frShell, e = .halt status fr frShell := by
  obtain ⟨esp, ebp, eax, rfl⟩ := comesBack_iff.mp hback
  rcases step_quiet hs with ⟨command, fr, rfl⟩ | ⟨status, fr, frShell, rfl⟩ |
    ⟨t, fr, frShell, rfl⟩ | ⟨fr, rfl⟩ | ⟨-, v, hret⟩
  · rcases execute_func_cases hs with ⟨fs, -, hret, -⟩ | ⟨x, -, -, hret, -⟩ |
      ⟨x, q, -, -, -, hret, -⟩
    · cases hret
    · cases hret
    · cases hret
  · exact ⟨status, fr, frShell, rfl⟩
  · rcases launch_term_cases hs with ⟨-, -, hret⟩ | ⟨-, -, old, -, r, -, hret⟩ | ⟨-, -, -, hret⟩
    · cases hret
    · rcases hret with ⟨e', -, hret⟩ | ⟨-, hret⟩
      · cases hret
      · cases hret
    · cases hret
  · cases (step_tick hs).2
  · cases hret

/-- Only the end of `c` comes back to `p`. -/
theorem Waits.comes_back (h : Waits p c esp ebp k) (hs : step m k e = some (k', out))
    (hback : ComesBack p out) : ∃ status fr frShell t, e = .halt status fr frShell ∧
      HaltTarget status k c t := by
  obtain ⟨F, hF⟩ := h.forest
  obtain ⟨status, fr, frShell, rfl⟩ := halt_of_comesBack hs hback
  obtain ⟨victim, t, k₁, htarget, hclose, hend⟩ := halt_func_cases hs
  obtain ⟨hwhom, -, -⟩ := halt_target_links (k := k.cli) hF.cur_term htarget
  have hmem : victim ∈ F.family.stack t := hF.stacked.mem_top (hwhom.top hF)
  have hvictim : k.pid_array victim = true := (hF.stacked.used victim).mpr ⟨t, hmem⟩
  refine ⟨status, fr, frShell, t, rfl, ?_⟩
  rcases hend with ⟨parent, -, heq⟩ | ⟨-, e', hret, -⟩
  · -- the frame is that of a caller of the victim
    rw [(Prod.mk.inj heq).2] at hback
    have hcaller : (k.pcb victim).caller = .process p :=
      (released_lineage hF htarget victim).caller.symm.trans hback
    -- and `p` has no other child than `c`
    have hchild := hF.stacked.child_unique hvictim h.used (h.calls victim hvictim hcaller)
      h.parent
    exact hchild ▸ hwhom
  · -- the terminal has a new shell
    rw [hret] at hback
    cases hback

/-- The call that starts `c`. -/
theorem waits_of_execute {command : Bytes} {fr : Frame} {e₀ : ℕ} (hF : Refines k.links F)
    (hstacks : StacksSeparate k) (hcalls : CallsItsChild k.cur_pid k)
    (hfg : ForegroundExecute m k (.execute command fr))
    (hok : KeepsStacks m k (.execute command fr))
    (hs : step m k (.execute command fr) = some (k', .enterUser e₀)) :
    Waits k.cur_pid k'.cur_pid (fr.esp k) fr.ebp k' ∧ KeepsOwn k.cur_pid k k' := by
  have hkeeps : KeepsOwn k.cur_pid k k' := execute_func_keepsOwn hF.cur_used hs
  obtain ⟨F', -, hF'⟩ := step_refines hF hs
  rcases execute_func_lineage hs k'.cur_pid with ⟨hslot, -⟩ | ⟨hnew, ⟨x, haccept⟩, -⟩
  · -- the new process was not in use before
    rcases execute_func_cases hs with ⟨fs, -, hret, -⟩ | ⟨x, -, -, hret, -⟩ |
      ⟨x, c, -, hfree, -, -, frame, console, -, rfl⟩
    · cases hret
    · cases hret
    · have hbefore : k.pid_array c = true := hslot.symm.trans hF'.cur_used
      rw [hfree] at hbefore
      cases hbefore
  have hdisplay := hfg ⟨x, haccept⟩ ⟨_, hnew.free⟩
  refine ⟨⟨⟨F', hF'⟩, step_stacks hF hstacks hok hs, hcalls.step hF (fun _ => hfg) hs,
    hF'.cur_used, ?_, hnew.caller, hnew.esp, hnew.ebp⟩, hkeeps⟩
  rw [hnew.parent, hdisplay]
  exact hF.cur

/-! ## The wait -/

/-- Something happens while `p` waits: keys are typed, or the kernel takes a step that does not
come back to `p`. Every process stays on its own kernel stack. -/
inductive WaitStep (m : Machine) (p : Pid) : Kernel → Kernel → Prop
  | typed (k : Kernel) (console : Console) : WaitStep m p k { k with console := console }
  | operation {k k' : Kernel} {e : Event} {out : Outcome} : KeepsStacks m k e →
      step m k e = some (k', out) → ¬ ComesBack p out → WaitStep m p k k'

theorem Waits.run (h : Waits p c esp ebp k) (hrun : Relation.ReflTransGen (WaitStep m p) k k') :
    Waits p c esp ebp k' ∧ KeepsOwn p k k' := by
  induction hrun with
  | refl => exact ⟨h, h.below.1, rfl, rfl⟩
  | @tail k₁ k' _ hstep ih =>
    obtain ⟨hwaits, hkeeps⟩ := ih
    cases hstep with
    | typed console =>
      have hseparate : StacksSeparate { k₁ with console := console } :=
        hwaits.separate.congr rfl rfl (fun _ => rfl) fun _ => rfl
      exact ⟨⟨hwaits.forest, hseparate, hwaits.calls, hwaits.used, hwaits.parent, hwaits.caller,
        hwaits.esp, hwaits.ebp⟩, hkeeps.used, hkeeps.fd_table, hkeeps.arg⟩
    | operation hok hs hnot =>
      exact ⟨hwaits.goes_on hok hs hnot, hkeeps.trans (hwaits.keepsOwn hok hs).2⟩

end

/-- No call of `p` is outstanding while it runs. -/
theorem callsItsChild_of_run {m : Machine} {k : Kernel} {p : Pid}
    (h : ReachableWhere m (OwnForeground m p) k) : CallsItsChild p k := by
  have hsafe : (∃ F, Refines k.links F) ∧ CallsItsChild p k := by
    refine System.ReachableWhere.invariant
      (P := fun k => (∃ F, Refines k.links F) ∧ CallsItsChild p k) h (fun k h0 => ?_)
      fun k e k' _ hk hown hstep => ?_
    · obtain ⟨mem, -, hstart⟩ := h0
      obtain ⟨p₀, hF⟩ := started_refines hstart
      obtain ⟨fr, e, hex⟩ := hstart
      refine ⟨⟨_, hF⟩, fun q hq hcaller => ?_⟩
      rcases execute_func_lineage hex q with ⟨hslot, -⟩ | ⟨hnew, -⟩
      · rw [hq] at hslot
        cases hslot
      · rw [hnew.caller] at hcaller
        cases hcaller
    · obtain ⟨⟨F, hF⟩, hcalls⟩ := hk
      obtain ⟨out, hs⟩ := system_step_iff.mp hstep
      obtain ⟨F', -, hF'⟩ := step_refines hF hs
      exact ⟨⟨F', hF'⟩, hcalls.step hF hown hs⟩
  exact hsafe.2

/-- While every process enters the kernel on its own stack, an `execute` called from the terminal
on display comes back once, from the `halt` that ends the program it has started: to its own
frame, with the status of that program. Until then the caller does not run, nobody enters the
kernel above its frame, and it finds its descriptors and its argument as they were. -/
theorem execute_comes_back {m : Machine} {k₀ k₁ k : Kernel} {command : Bytes} {fr : Frame}
    {e₀ : ℕ}
    (h : ReachableWhere m (fun k e => OwnForeground m k₀.cur_pid k e ∧ KeepsStacks m k e) k₀)
    (hfg : ForegroundExecute m k₀ (.execute command fr))
    (hok : KeepsStacks m k₀ (.execute command fr))
    (hstart : step m k₀ (.execute command fr) = some (k₁, .enterUser e₀))
    (hwait : Relation.ReflTransGen (WaitStep m k₀.cur_pid) k₁ k) :
    k.pid_array k₁.cur_pid = true ∧ (k.pcb k₁.cur_pid).parent = some k₀.cur_pid ∧
    (∀ t, k.running_pid t ≠ some k₀.cur_pid) ∧ ¬ Overwrites k.tss.esp0 (fr.esp k₀) ∧
    KeepsOwn k₀.cur_pid k₀ k ∧
    ∀ e k' out, step m k e = some (k', out) → ComesBack k₀.cur_pid out →
      ∃ status fr' frShell t, e = .halt status fr' frShell ∧ HaltTarget status k k₁.cur_pid t ∧
        out = .resume (.process k₀.cur_pid) (fr.esp k₀) fr.ebp status.toNat ∧
        k'.cur_pid = k₀.cur_pid ∧ k'.pid_array k₁.cur_pid = false ∧
        KeepsOwn k₀.cur_pid k₀ k' := by
  obtain ⟨F, hF⟩ := h.reachable.refines
  have hstacks := stacksSeparate_of_run (h.mono fun _ _ h => h.2)
  have hcalls := callsItsChild_of_run (h.mono fun _ _ h => h.1)
  obtain ⟨hwaits₁, hkeeps₁⟩ := waits_of_execute hF hstacks hcalls hfg hok hstart
  obtain ⟨hwaits, hkeeps⟩ := hwaits₁.run hwait
  refine ⟨hwaits.used, hwaits.parent, hwaits.below.2.1, hwaits.not_overwrites,
    hkeeps₁.trans hkeeps, ?_⟩
  intro e k' out hs hback
  obtain ⟨status, fr', frShell, t, rfl, htarget⟩ := hwaits.comes_back hs hback
  obtain ⟨hout, hcur, hfree⟩ := hwaits.halted hs htarget
  exact ⟨status, fr', frShell, t, rfl, htarget, hout, hcur, hfree,
    (hkeeps₁.trans hkeeps).trans (hwaits.keepsOwn (hwaits.halt_keeps htarget) hs).2⟩

/-- The first shell waits for a program. The user opens another terminal, the timer goes back to
the program, and the shell gets its status. -/
theorem execute_comes_back_hidden : ∃ k₁ k k' out,
    step sampleMachine sampleKernel (.execute sampleMachine.shell sampleFrame) =
      some (k₁, .enterUser LOAD_START) ∧
    Relation.ReflTransGen (WaitStep sampleMachine sampleKernel.cur_pid) k₁ k ∧
    k.curr_term = 1 ∧ step sampleMachine k (.halt 7 sampleFrame sampleFrame) = some (k', out) ∧
    out = .resume (.process sampleKernel.cur_pid) (sampleFrame.esp sampleKernel) sampleFrame.ebp 7 ∧
    k'.cur_pid = sampleKernel.cur_pid := by
  have hrun : ((step sampleMachine sampleKernel (.execute sampleMachine.shell sampleFrame)).any
      fun r => decide (r.2 = .enterUser LOAD_START ∧ RecordedEntry r.1) &&
        (step sampleMachine r.1 (.launch_term 1 laterFrame sampleFrame)).any fun r₁ =>
          decide (¬ ComesBack sampleKernel.cur_pid r₁.2) &&
            (step sampleMachine r₁.1 (.tick laterFrame)).any fun r₂ =>
              decide (¬ ComesBack sampleKernel.cur_pid r₂.2 ∧ r₂.1.curr_term = 1) &&
                (step sampleMachine r₂.1 (.halt 7 sampleFrame sampleFrame)).any fun r₃ =>
                  decide (ComesBack sampleKernel.cur_pid r₃.2)) = true := by
    decide +kernel
  rw [Option.any_eq_true] at hrun
  obtain ⟨⟨k₁, out₁⟩, hstart, hrun⟩ := hrun
  rw [Bool.and_eq_true, decide_eq_true_eq, Option.any_eq_true] at hrun
  obtain ⟨⟨rfl, hentry⟩, ⟨k₂, out₂⟩, hlaunch, hrun⟩ := hrun
  rw [Bool.and_eq_true, decide_eq_true_eq, Option.any_eq_true] at hrun
  obtain ⟨hnot₂, ⟨k, out₃⟩, htick, hrun⟩ := hrun
  rw [Bool.and_eq_true, decide_eq_true_eq, Option.any_eq_true] at hrun
  obtain ⟨⟨hnot₃, hdisplay⟩, ⟨k', out⟩, hhalt, hback⟩ := hrun
  rw [decide_eq_true_eq] at hback
  have hkeeps₁ : KeepsStacks sampleMachine k₁ (.launch_term 1 laterFrame sampleFrame) :=
    fun _ _ _ => hentry
  have hkeeps₂ : KeepsStacks sampleMachine k₂ (.tick laterFrame) := trivial
  have hwait : Relation.ReflTransGen (WaitStep sampleMachine sampleKernel.cur_pid) k₁ k :=
    .tail (.single (.operation hkeeps₁ hlaunch hnot₂)) (.operation hkeeps₂ htick hnot₃)
  obtain ⟨-, -, -, -, -, hends⟩ := execute_comes_back
    (System.ReachableWhere.init ⟨sampleMemory, trivial, sampleKernel_started⟩)
    (fun _ _ => by decide +kernel) (fun _ _ => Or.inl (by decide +kernel)) hstart hwait
  obtain ⟨status, fr', frShell, t, heq, -, hout, hcur, -⟩ := hends _ k' out hhalt hback
  cases heq
  exact ⟨k₁, k, k', out, hstart, hwait, hdisplay, hhalt, hout, hcur⟩

/-! ## `execute` as its caller sees it -/

/-- How a call of `execute` ends: there is no such program, no process number is left for it, or
it has run and returned a status. -/
inductive Completion where
  | refused
  | full
  | status (code : UInt8)
deriving DecidableEq

def Completion.value : Completion → ℤ
  | .refused => -1
  | .full => -2
  | .status code => code.toNat

/-- A call of `execute` by `p`, from the kernel it is made in to the one it returns `r` in: it is
refused, or the program it starts from the terminal on display ends. -/
inductive Executed (m : Machine) (p : Pid) (command : Bytes) : Kernel → Kernel → ℤ → Prop
  | refused {k k' : Kernel} {fr : Frame} {r : ℤ} :
      step m k (.execute command fr) = some (k', .ret r) → Executed m p command k k' r
  | ended {k k₁ k₂ k' : Kernel} {fr : Frame} {e₀ : ℕ} {e : Event} {esp ebp : UInt32} {eax : ℕ} :
      ForegroundExecute m k (.execute command fr) → KeepsStacks m k (.execute command fr) →
      step m k (.execute command fr) = some (k₁, .enterUser e₀) →
      Relation.ReflTransGen (WaitStep m p) k₁ k₂ →
      step m k₂ e = some (k', .resume (.process p) esp ebp eax) → Executed m p command k k' eax

/-- Its caller goes on as it was, with one of the three results. -/
theorem Executed.returns {m : Machine} {p : Pid} {command : Bytes} {k k' : Kernel} {r : ℤ}
    (h : Executed m p command k k' r) (halive : Alive p k) (hcur : k.cur_pid = p)
    (hcalls : CallsItsChild p k) :
    Alive p k' ∧ KeepsOwn p k k' ∧ CallsItsChild p k' ∧ ∃ c : Completion, r = c.value := by
  obtain ⟨⟨F, hF⟩, hstacks, hused⟩ := halive
  subst hcur
  cases h with
  | refused hs =>
    have hkeeps : KeepsOwn k.cur_pid k k' := execute_func_keepsOwn hused hs
    rcases execute_func_cases hs with ⟨fs, -, hret, rfl⟩ | ⟨x, -, -, hret, console, -, rfl⟩ |
      ⟨x, c, -, -, -, hret, -⟩
    · exact ⟨⟨⟨F, hF⟩, hstacks.congr rfl rfl (fun _ => rfl) fun _ => rfl, hused⟩, hkeeps, hcalls,
        .refused, Outcome.ret.inj hret⟩
    · exact ⟨⟨⟨F, hF⟩, hstacks.congr rfl rfl (fun _ => rfl) fun _ => rfl, hused⟩, hkeeps, hcalls,
        .full, Outcome.ret.inj hret⟩
    · cases hret
  | ended hfg hok hstart hwait hs =>
    obtain ⟨hwaits₁, hkeeps₁⟩ := waits_of_execute hF hstacks hcalls hfg hok hstart
    obtain ⟨hwaits, hkeeps⟩ := hwaits₁.run hwait
    obtain ⟨F₂, hF₂⟩ := hwaits.forest
    obtain ⟨status, fr', frShell, t, rfl, htarget⟩ := hwaits.comes_back hs rfl
    obtain ⟨halive', hkeeps'⟩ := hwaits.keepsOwn (hwaits.halt_keeps htarget) hs
    have hout := (hwaits.halted hs htarget).1
    rw [Outcome.resume.injEq] at hout
    refine ⟨halive', (hkeeps₁.trans hkeeps).trans hkeeps',
      hwaits.calls.step hF₂ (fun hcur => absurd hcur hwaits.below.2.2) hs, .status status, ?_⟩
    rw [hout.2.2.2]
    rfl

end Kernel391
