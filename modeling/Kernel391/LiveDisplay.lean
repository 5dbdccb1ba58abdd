import Kernel391.ProcessForest

/-!
# The process on display

Ctrl+C ends the process on display and takes it for granted that there is one. `launch_term`
puts a terminal on display before it asks for a shell there, and returns 0 when none was to be
had. So there is a process on display as long as a process number is free whenever a terminal
is opened (`displayed_process_live`).
-/

namespace Kernel391

open PointerChain TransitionSystem

/-- A live process runs on the terminal on display. -/
def DisplayLive (k : Kernel) : Prop :=
  ∃ p, k.running_pid k.curr_term = some p ∧ k.pid_array p = true

/-- Display, screen and line are as they were, and the caller is told so. -/
def LeftAlone (k k' : Kernel) (out : Outcome) : Prop :=
  k'.curr_term = k.curr_term ∧ k'.console = k.console ∧ ∃ v < 0, out = .ret v

/-- The terminal to be displayed has a process, or can be given one. -/
def ShellStarts (k : Kernel) : Event → Prop
  | .launch_term t _ _ => t = k.curr_term ∨ k.running_pid t ≠ none ∨ ∃ p, k.pid_array p = false
  | _ => True

section
variable {m : Machine} {k k' : Kernel} {out : Outcome} {F : Forest TermId Pid}

/-- The process of a terminal is live. -/
theorem Refines.displayLive_iff (hF : Refines k.links F) :
    DisplayLive k ↔ k.running_pid k.curr_term ≠ none := by
  constructor
  · rintro ⟨p, hp, -⟩ hnone
    rw [hp] at hnone
    cases hnone
  · intro hne
    obtain ⟨p, hp⟩ := Option.ne_none_iff_exists'.mp hne
    exact ⟨p, hp, (hF.stacked.used p).mpr ⟨k.curr_term, hF.stacked.mem_top hp⟩⟩

/-- A new process is on display. -/
theorem displayLive_of_attach {l : Links} {p : Pid} (h : k'.links = l.attach k'.curr_term p) :
    DisplayLive k' := by
  obtain ⟨-, -, -, hused, hrun, -⟩ := attached_fields h
  exact ⟨p, hrun, hused⟩

theorem execute_func_curr_term {caller : Caller} {command : Bytes} {fr : Frame}
    (h : execute_func m caller command fr k = some (k', out)) : k'.curr_term = k.curr_term := by
  rcases execute_func_cases h with ⟨fs, -, -, rfl⟩ | ⟨x, -, -, -, console, -, rfl⟩ |
    ⟨x, p, -, -, -, -, frame, console, -, rfl⟩
  · rfl
  · rfl
  · rfl

theorem halt_func_curr_term {status : UInt8} {fr frShell : Frame}
    (hterm : (k.pcb k.cur_pid).term_id = k.running_term)
    (h : halt_func m status fr frShell k = some (k', out)) : k'.curr_term = k.curr_term := by
  obtain ⟨victim, t, k₁, htarget, -, hend⟩ := halt_func_cases h
  obtain ⟨-, hcurr, -⟩ := halt_target_links (k := k.cli) hterm htarget
  rcases hend with ⟨parent, -, heq⟩ | ⟨-, e, -, hex⟩
  · rw [(Prod.mk.inj heq).1]
    exact hcurr
  · rw [execute_func_curr_term hex]
    exact hcurr

/-! ## Opening a terminal -/

/-- Its caller is told that all is well. -/
theorem launch_term_not_leftAlone {t : TermId} {fr frShell : Frame}
    (h : launch_term m t fr frShell k = some (k', out)) : ¬ LeftAlone k k' out := by
  rintro ⟨-, -, v, hv, rfl⟩
  rcases launch_term_cases h with ⟨-, -, hout⟩ | ⟨-, -, old, -, r, -, ⟨e, -, hout⟩ | ⟨-, hout⟩⟩ |
    ⟨-, -, -, hout⟩
  · rw [Outcome.ret.injEq] at hout
    omega
  · cases hout
  · rw [Outcome.ret.injEq] at hout
    omega
  · rw [Outcome.ret.injEq] at hout
    omega

/-- There is a process on display if a shell could be started where one was needed. -/
theorem launch_term_live_iff {t : TermId} {fr frShell : Frame} (hF : Refines k.links F)
    (hlive : DisplayLive k) (h : launch_term m t fr frShell k = some (k', out)) :
    DisplayLive k' ↔ ShellStarts k (.launch_term t fr frShell) := by
  rcases launch_term_cases h with ⟨ht, rfl, -⟩ | ⟨ht, hnone, old, -, r, hex, hout⟩ |
    ⟨ht, ⟨p, hp⟩, rfl, -⟩
  · exact iff_of_true hlive (Or.inl ht)
  · rcases execute_func_cases hex with ⟨fs, hcheck, -, -⟩ | ⟨x, -, hfull, rfl, console, -, rfl⟩ |
      ⟨x, p, -, hfree, -, -, frame, console, -, rfl⟩
    · -- the shell passes its checks
      obtain ⟨x, hshell, -⟩ := check_command_shell m frShell k.fs
      rw [show check_command m.img m.shell frShell k.fs = .refuse fs from hcheck] at hshell
      cases hshell
    · refine iff_of_false ?_ ?_
      · rintro ⟨p, hp, -⟩
        have hrun : k.running_pid t = some p := hp
        rw [hnone] at hrun
        cases hrun
      · rintro (heq | hne | ⟨p, hp⟩)
        · exact ht heq
        · exact hne hnone
        · rw [show k.pid_array p = true from hfull p] at hp
          cases hp
    · refine iff_of_true ?_ (Or.inr (Or.inr ⟨p, hfree⟩))
      exact displayLive_of_attach (links_started .kernel x p frShell _ frame console)
  · refine iff_of_true ⟨p, hp, ?_⟩ (Or.inr (Or.inl ?_))
    · exact (hF.stacked.used p).mpr ⟨t, hF.stacked.mem_top hp⟩
    · rw [hp]
      exact Option.some_ne_none p

/-! ## Every run -/

/-- One step. -/
theorem DisplayLive.step {e : Event} (hF : Refines k.links F) (hlive : DisplayLive k)
    (hok : ShellStarts k e) (hs : step m k e = some (k', out)) : DisplayLive k' := by
  obtain ⟨F', -, hF'⟩ := step_refines hF hs
  -- the fields that matter where no process is started or ended
  have hkeep : k'.curr_term = k.curr_term → k'.running_pid k.curr_term = k.running_pid k.curr_term →
      DisplayLive k' := by
    intro hcurr hrun
    rw [hF'.displayLive_iff, hcurr, hrun]
    exact hF.displayLive_iff.mp hlive
  rcases step_quiet hs with ⟨command, fr, rfl⟩ | ⟨status, fr, frShell, rfl⟩ |
    ⟨t, fr, frShell, rfl⟩ | ⟨fr, rfl⟩ | ⟨hquiet, -⟩
  · have hcurr := execute_func_curr_term hs
    rcases execute_func_links hs with ⟨hsame, -⟩ | ⟨p, e, -, -, hattach⟩
    · exact hkeep hcurr (congrFun (congrArg Links.running_pid hsame) k.curr_term)
    · rw [← hcurr] at hattach
      exact displayLive_of_attach hattach
  · have hcurr := halt_func_curr_term hF.cur_term hs
    obtain ⟨victim, t, -, ⟨parent, -, hdetach⟩ | ⟨-, p, -, hattach⟩⟩ :=
      halt_func_links hF.cur_term hs
    · rw [hF'.displayLive_iff, hcurr,
        show k'.running_pid k.curr_term = Function.update k.links.running_pid t
          (some (k.links.pid parent)) k.curr_term from
          congrFun (congrArg Links.running_pid hdetach) k.curr_term]
      by_cases ht : k.curr_term = t
      · rw [ht, Function.update_self]
        exact Option.some_ne_none _
      · rw [Function.update_of_ne ht]
        exact hF.displayLive_iff.mp hlive
    · rw [← hcurr] at hattach
      exact displayLive_of_attach hattach
  · exact (launch_term_live_iff hF hlive hs).mpr hok
  · obtain ⟨htick, -⟩ := step_tick hs
    rcases pit_interrupt_handler_cases hF.stacked.number htick with ⟨-, -, rfl⟩ |
      ⟨-, t, p, curr, -, -, rfl⟩
    · exact hlive
    · refine hkeep rfl ?_
      exact congrFun (congrArg Links.running_pid (links_switched m t p curr fr k)) k.curr_term
  · refine hkeep hquiet.terminals.2 ?_
    exact congrFun (congrArg Links.running_pid hquiet.links_eq) k.curr_term

/-- The first shell is on display. -/
theorem Started.displayLive {mem : BootMemory} (h : Started m mem k) : DisplayLive k := by
  obtain ⟨fr, e, hex⟩ := h
  have hcurr := execute_func_curr_term hex
  rcases execute_func_links hex with ⟨-, hout⟩ | ⟨p, e', -, -, hattach⟩
  · exact absurd rfl (hout e)
  · rw [← hcurr] at hattach
    exact displayLive_of_attach hattach

end

end Kernel391
