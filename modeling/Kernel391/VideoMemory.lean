import Kernel391.ContextSwitch
import Kernel391.Display
import Kernel391.Isolation

/-!
# Where programs draw

A program that has called `vidmap` draws through the page at 132 MB. It is to be video
memory while the program's terminal is displayed, and that terminal's saved screen while it
is not. `launch_term` between running terminals and the scheduler see to that; `vidmap`
itself, `execute` and `halt` map video memory or nothing, which is right only as long as the
running terminal is the displayed one; and `vidmap` stores through any pointer, also one into
the kernel's own data (`FollowsRun`).
-/

namespace Kernel391

open TransitionSystem

/-- The screen the running terminal's programs should draw on. -/
def drawTarget (k : Kernel) : ℕ :=
  if k.running_term = k.curr_term then VIDEO else (k.console.term k.running_term).vid_backup

/-- The page at 132 MB is that screen. -/
def FollowsDisplay (m : Machine) (k : Kernel) : Prop :=
  ∀ (mem : ℕ → ℕ → Word), ∀ o < four_KB,
    userTranslate m.layout k.paging mem (BitVec.ofNat 32 (_132MB + o)) = some (drawTarget k + o)

/-! ## The invariant -/

/-- The frame of the screen terminal `running` draws on while `displayed` is displayed. -/
def drawFrame (running displayed : TermId) : ℕ :=
  (if running = displayed then VIDEO else backupOf running) / four_KB

/-- The frame mapped is the one to draw on. -/
def Follows (m : Machine) (k : Kernel) : Prop :=
  VideoPage m.layout k.paging (drawFrame k.running_term k.curr_term)

section
variable {m : Machine} {k k' : Kernel}

theorem drawTarget_eq (hs : Placed k.console) :
    drawTarget k = drawFrame k.running_term k.curr_term * four_KB := by
  unfold drawTarget drawFrame
  rw [hs]
  split_ifs
  · decide
  · simp only [backupOf, VIDEO, four_KB]
    omega

theorem Follows.followsDisplay (h : Follows m k) (hs : Placed k.console) : FollowsDisplay m k := by
  intro mem o ho
  rw [drawTarget_eq hs]
  exact VideoPage.userTranslate h mem ho

/-- The page is the same and so are the two terminals. -/
theorem Follows.congr (h : Follows m k) (hpaging : k'.paging = k.paging)
    (hrun : k'.running_term = k.running_term) (hcurr : k'.curr_term = k.curr_term) :
    Follows m k' := by
  unfold Follows
  rw [hpaging, hrun, hcurr]
  exact h

theorem drawFrame_self (t : TermId) : drawFrame t t = VIDEO / four_KB := by
  unfold drawFrame
  rw [if_pos rfl]

theorem drawFrame_of_ne {running displayed : TermId} (h : running ≠ displayed) :
    drawFrame running displayed = backupOf running / four_KB := by
  unfold drawFrame
  rw [if_neg h]

/-- `launch_term` and the scheduler map the right screen. -/
theorem videoMap_follows (hs : Placed k.console) (running displayed : TermId) :
    VideoPage m.layout (videoMap m running displayed k) (drawFrame running displayed) := by
  have hbase := hs.base_lt running
  unfold videoMap
  by_cases hsame : running = displayed
  · rw [if_neg (not_not.mpr hsame), hsame, drawFrame_self]
    exact remap_vid_videoPage _ _ (by decide)
  · rw [if_pos hsame, drawFrame_of_ne hsame, ← hs running]
    exact remap_vid_videoPage _ _ (by omega)

/-! ## Each operation -/

/-- A pointer `vidmap` uses. -/
def Accepted (ptr : Word) : Prop := ¬ (ptr.toNat = 0 ∨ ptr.toNat = _4MB)

instance (ptr : Word) : Decidable (Accepted ptr) := by
  unfold Accepted
  infer_instance

/-- `vidmap` maps video memory, and changes neither terminal. -/
theorem vidmap_func_accepted {ptr : Word} {r : ℤ} (hptr : Accepted ptr)
    (h : vidmap_func m ptr k = some (k', r)) :
    VideoPage m.layout k'.paging (VIDEO / four_KB) ∧ k'.running_term = k.running_term ∧
      k'.curr_term = k.curr_term := by
  unfold vidmap_func at h
  rw [if_neg hptr, Option.bind_eq_bind, Option.bind_eq_some_iff] at h
  obtain ⟨k₁, hstore, h⟩ := h
  obtain ⟨paging, console, frame, -, rfl⟩ := storeThrough_memory hstore
  rw [Option.some.injEq, Prod.mk.injEq] at h
  rw [← h.1]
  exact ⟨remap_vid_videoPage _ _ (by decide), rfl, rfl⟩

theorem vidmap_func_rejected {ptr : Word} {r : ℤ} (hptr : ¬ Accepted ptr)
    (h : vidmap_func m ptr k = some (k', r)) : k' = k := by
  unfold vidmap_func at h
  rw [if_pos (not_not.mp hptr), Option.some.injEq, Prod.mk.injEq] at h
  exact h.1.symm

/-- `execute` maps nothing at 132 MB; a process it starts runs on the displayed terminal. -/
theorem execute_func_follows {caller : Caller} {command : Bytes} {fr : Frame} {out : Outcome}
    (h : Follows m k)
    (hok : (∃ x, check_command m.img command fr k.fs = .accept x) →
      (∃ p, k.pid_array p = false) → k.curr_term = k.running_term)
    (hex : execute_func m caller command fr k = some (k', out)) : Follows m k' := by
  rcases execute_func_cases hex with ⟨fs, -, -, rfl⟩ | ⟨x, -, -, -, console, -, rfl⟩ |
    ⟨x, p, hcheck, hfree, -, -, frame, console, -, rfl⟩
  · exact h.congr rfl rfl rfl
  · exact h.congr rfl rfl rfl
  · have hcurr := hok ⟨x, hcheck⟩ ⟨p, hfree⟩
    unfold Follows at h ⊢
    rw [← hcurr] at h
    exact VideoPage.remap h _

/-- When `halt` leaves the page right: the running terminal is displayed, or a process with a
parent ends itself. -/
def ForegroundHalt (k : Kernel) (status : UInt8) : Prop :=
  k.running_term = k.curr_term ∨ status ≠ 1 ∧ (k.pcb k.cur_pid).parent ≠ none

/-- When opening a terminal does: the page is video memory and a shell is started on it, or
it is not and there is no number for a shell. -/
def ForegroundOpen (k : Kernel) (t : TermId) : Prop :=
  t ≠ k.curr_term → k.running_pid t = none →
    ((∃ p, k.pid_array p = false) ↔ k.running_term = k.curr_term)

theorem halt_func_follows {status : UInt8} {fr frShell : Frame} {out : Outcome}
    (h : Follows m k) (hok : ForegroundHalt k status)
    (hhalt : halt_func m status fr frShell k = some (k', out)) : Follows m k' := by
  obtain ⟨victim, t, k₁, htarget, -, hend⟩ := halt_func_cases hhalt
  -- before the end nothing changes but the running terminal, which is displayed then
  have hk₁ : Follows m k₁ ∧ (k₁.running_term = k₁.curr_term ∨
      (k₁.pcb victim).parent ≠ none) := by
    obtain ⟨console, -, hcases⟩ := halt_target_cases htarget
    rcases hcases with ⟨-, -, -, hrun, rfl⟩ | ⟨hs, -, -, hne, running, -, rfl⟩ | ⟨-, hv, -, rfl⟩
    · exact ⟨h.congr rfl rfl rfl, Or.inl hrun⟩
    · rcases hok with hrun | ⟨hs', -⟩
      · exact absurd hrun hne
      · exact absurd hs hs'
    · refine ⟨h.congr rfl rfl rfl, hok.imp id fun hp => ?_⟩
      rw [hv]
      exact hp.2
  obtain ⟨hfollows, hparent⟩ := hk₁
  rcases hend with ⟨parent, -, heq⟩ | ⟨hnone, e, -, hex⟩
  · rw [show k' = _ from congrArg Prod.fst heq]
    exact VideoPage.remap hfollows _
  · have hrun := hparent.resolve_right fun hp => hp hnone
    have hshell : Follows m ((released victim k₁).modTerm t fun i =>
        { i with running_pid := none }) := hfollows.congr rfl rfl rfl
    exact execute_func_follows hshell (fun _ _ => hrun.symm) hex

theorem launch_term_follows {t : TermId} {fr frShell : Frame} {out : Outcome}
    (h : Follows m k) (hs : Placed k.console) (hok : ForegroundOpen k t)
    (hlaunch : launch_term m t fr frShell k = some (k', out)) : Follows m k' := by
  rcases launch_term_cases hlaunch with ⟨-, rfl, -⟩ | ⟨hne, hnone, old, hold, r, hex, -⟩ |
    ⟨-, -, rfl, -⟩
  · exact h.congr rfl rfl rfl
  · have hfree := hok hne hnone
    have hrt : k.running_term ≠ t := by
      intro heq
      rw [heq, hnone] at hold
      cases hold
    rcases execute_func_cases hex with ⟨fs, hrefuse, -, -⟩ | ⟨x, -, hfull, -, console, -, rfl⟩ |
      ⟨x, p, -, hp, -, -, frame, console, -, rfl⟩
    · -- the shell is never refused
      obtain ⟨x, haccept, -⟩ := check_command_shell m frShell (opening t old fr k).fs
      rw [haccept] at hrefuse
      cases hrefuse
    · have hback : k.running_term ≠ k.curr_term := by
        intro hrun
        obtain ⟨p, hp⟩ := hfree.mpr hrun
        have hp' : (opening t old fr k).pid_array p = false := hp
        exact absurd (hfull p) (by rw [hp']; decide)
      unfold Follows at h
      rw [drawFrame_of_ne hback] at h
      show VideoPage m.layout k.paging (drawFrame k.running_term t)
      rw [drawFrame_of_ne hrt]
      exact h
    · have hrun := hfree.mp ⟨p, hp⟩
      unfold Follows at h
      rw [hrun, drawFrame_self] at h
      show VideoPage m.layout _ (drawFrame t t)
      rw [drawFrame_self]
      exact VideoPage.remap h _
  · exact videoMap_follows (hs.of_same (switch_terminal_screens _ _ _)) _ _

theorem tick_follows {fr : Frame} (h : Follows m k) (hs : Placed k.console)
    (hid : ∀ t, (k.term t).term_id = t) (htick : pit_interrupt_handler m fr k = some k') :
    Follows m k' := by
  rcases pit_interrupt_handler_cases hid htick with ⟨-, -, rfl⟩ |
    ⟨-, t, p, curr, -, -, rfl⟩
  · exact h.congr rfl rfl rfl
  · exact VideoPage.remap (videoMap_follows hs t k.curr_term) _

end

/-! ## Runs -/

/-- Runs of the kernel, with a note whether `vidmap` has been called successfully. -/
def systemMapped (m : Machine) : System (Kernel × Bool) Event :=
  (system m fun _ => True).withHistory (fun _ mapped => mapped = false) fun _ e mapped =>
    match e with
    | .vidmap ptr => mapped || decide (Accepted ptr)
    | _ => mapped

/-- The steps that keep the page right, once it is in use: the running terminal is displayed
when video memory is asked for, with a pointer out of the kernel's page, and when a process is
started or ended by them. -/
def FollowsRun (m : Machine) (p : Kernel × Bool) : Event → Prop
  | .vidmap ptr => Accepted ptr → OutsideKernel ptr ∧ p.1.running_term = p.1.curr_term
  | .execute command fr => p.2 = true → ForegroundExecute m p.1 (.execute command fr)
  | .halt status _ _ => p.2 = true → ForegroundHalt p.1 status
  | .launch_term t _ _ => p.2 = true → ForegroundOpen p.1 t
  | _ => True

section
variable {m : Machine} {k k' : Kernel}

/-- One step, once the page is in use. -/
theorem Follows.step {e : Event} {out : Outcome} {F : Forest TermId Pid}
    (hF : Refines k.links F) (hs : Placed k.console) (h : Follows m k)
    (hok : FollowsRun m (k, true) e) (hstep : Kernel391.step m k e = some (k', out)) :
    Follows m k' := by
  cases e with
  | execute command fr => exact execute_func_follows h (hok rfl) hstep
  | halt status fr frShell => exact halt_func_follows h (hok rfl) hstep
  | launch_term t fr frShell => exact launch_term_follows h hs (hok rfl) hstep
  | tick fr => exact tick_follows h hs hF.stacked.number (step_tick hstep).1
  | open_file filename =>
    rw [Kernel391.step, Option.some.injEq, Prod.mk.injEq] at hstep
    obtain ⟨hrun, hcurr⟩ := (open_func_quiet m filename k).terminals
    exact hstep.1 ▸ h.congr (open_func_paging m filename k) hrun hcurr
  | close fd =>
    obtain ⟨r, hclose, -⟩ := step_close hstep
    obtain ⟨hrun, hcurr⟩ := (close_func_quiet hclose).terminals
    exact h.congr (close_func_paging hclose) hrun hcurr
  | vidmap ptr =>
    obtain ⟨r, hvid, -⟩ := step_vidmap hstep
    by_cases hptr : Accepted ptr
    · obtain ⟨hpage, hrun, hcurr⟩ := vidmap_func_accepted hptr hvid
      unfold Follows
      rw [hrun, hcurr, (hok hptr).2, drawFrame_self]
      exact hpage
    · exact (vidmap_func_rejected hptr hvid).symm ▸ h
  | io console dir_number page position rtc_freq =>
    obtain ⟨hio, -⟩ := step_io hstep
    obtain ⟨hrun, hcurr⟩ := (io_step_quiet hio).terminals
    exact h.congr (io_step_paging hio) hrun hcurr

end

theorem reachable_of_mapped {m : Machine} {ok : Kernel × Bool → Event → Prop}
    {p : Kernel × Bool} (h : (systemMapped m).ReachableWhere ok p) : Reachable m p.1 :=
  System.withHistory_erase (h.mono fun _ _ _ => trivial)

/-- As long as the running terminal is the displayed one where that is needed, and no `vidmap`
stores into the kernel's page, the page at 132 MB is the running terminal's screen: video
memory if that is displayed, and otherwise a page that shares nothing with video memory. -/
theorem video_page_follows {m : Machine} {k : Kernel}
    (h : (systemMapped m).ReachableWhere (FollowsRun m) (k, true)) :
    FollowsDisplay m k ∧
      (k.running_term ≠ k.curr_term → ∀ o < four_KB, VIDEO + four_KB ≤ drawTarget k + o) := by
  have hplaced : Placed k.console := (reachable_of_mapped h).placed
  have hsafe : (k, true).2 = true → Follows m (k, true).1 := by
    refine h.invariant (P := fun p => p.2 = true → Follows m p.1) (fun p h0 hmapped => ?_)
      fun p e p' hr hp hok hs hmapped => ?_
    · rw [h0.2] at hmapped
      cases hmapped
    · obtain ⟨k, mapped⟩ := p
      obtain ⟨F, hF⟩ := (reachable_of_mapped hr).refines
      obtain ⟨hstep, hnote⟩ := System.withHistory_step_iff.mp hs
      obtain ⟨out, hstep⟩ := system_step_iff.mp hstep
      cases mapped with
      | true => exact (hp rfl).step hF (reachable_of_mapped hr).placed hok hstep
      | false =>
        -- the first `vidmap`
        cases e with
        | vidmap ptr =>
          have hptr : Accepted ptr := by simpa [hnote] using hmapped
          obtain ⟨r, hvid, -⟩ := step_vidmap hstep
          obtain ⟨hpage, hrun, hcurr⟩ := vidmap_func_accepted hptr hvid
          unfold Follows
          rw [hrun, hcurr, (hok hptr).2, drawFrame_self]
          exact hpage
        | execute command fr => simp [hnote] at hmapped
        | halt status fr frShell => simp [hnote] at hmapped
        | launch_term t fr frShell => simp [hnote] at hmapped
        | tick fr => simp [hnote] at hmapped
        | open_file filename => simp [hnote] at hmapped
        | close fd => simp [hnote] at hmapped
        | io console dir_number page position rtc_freq => simp [hnote] at hmapped
  refine ⟨(hsafe rfl).followsDisplay hplaced, fun hne o ho => ?_⟩
  have hbehind := hplaced.behind k.running_term
  have hsize : four_KB = 4096 := rfl
  unfold drawTarget
  rw [if_neg hne]
  omega

/-- Nothing goes wrong as long as the running terminal is displayed, a process can be started
and `vidmap` gets no pointer into the kernel's page. -/
theorem followsRun_of_displayed {m : Machine} {p : Kernel × Bool} {e : Event}
    (h : p.1.running_term = p.1.curr_term ∧ (∃ q, p.1.pid_array q = false) ∧
      SafePointer p.1 e) : FollowsRun m p e := by
  obtain ⟨hrun, hfree, hptr⟩ := h
  cases e with
  | vidmap ptr => exact fun hacc => ⟨hptr.resolve_left fun h4 => hacc (Or.inr h4), hrun⟩
  | execute command fr => exact fun _ _ _ => hrun.symm
  | halt status fr frShell => exact fun _ => Or.inl hrun
  | launch_term t fr frShell => exact fun _ _ _ => iff_of_true hfree hrun
  | tick fr => trivial
  | open_file filename => trivial
  | close fd => trivial
  | io console dir_number page position rtc_freq => trivial

/-- The first shell asks for video memory, a second terminal is opened, and a tick gives the
processor back to the first, whose page is then its saved screen. -/
theorem video_page_follows_hidden : ∃ k,
    (systemMapped sampleMachine).ReachableWhere (FollowsRun sampleMachine) (k, true) ∧
      k.running_term ≠ k.curr_term ∧ FollowsDisplay sampleMachine k := by
  have hrun : (((systemMapped sampleMachine).restrict fun p e =>
      p.1.running_term = p.1.curr_term ∧ (∃ q, p.1.pid_array q = false) ∧
        SafePointer p.1 e).runFrom (sampleKernel, false)
          [.vidmap 0x8100000, .launch_term 1 sampleFrame sampleFrame, .tick sampleFrame]).any
      (fun p => decide (p.2 = true ∧ p.1.running_term ≠ p.1.curr_term)) = true := by
    decide +kernel
  have hinit : (systemMapped sampleMachine).init (sampleKernel, false) :=
    ⟨⟨sampleMemory, trivial, sampleKernel_started⟩, rfl⟩
  obtain ⟨⟨k, mapped⟩, hreach, hmapped, hhidden⟩ :=
    System.ReachableWhere.exists_of_run hinit _ hrun
  obtain rfl : mapped = true := hmapped
  have hfollows : (systemMapped sampleMachine).ReachableWhere (FollowsRun sampleMachine)
      (k, true) := hreach.mono fun _ _ h => followsRun_of_displayed h
  exact ⟨k, hfollows, hhidden, (video_page_follows hfollows).1⟩

/-- A program of a hidden terminal asks for video memory and gets the visible screen. -/
theorem video_page_not_followed : ¬ ∀ k, (systemMapped sampleMachine).Reachable (k, true) →
    FollowsDisplay sampleMachine k := by
  intro hall
  have hrun : ((systemMapped sampleMachine).runFrom (sampleKernel, false)
      [.launch_term 1 sampleFrame sampleFrame, .tick sampleFrame, .vidmap 0x8100000]).any
      (fun p => decide (p.2 = true ∧ drawTarget p.1 ≠ VIDEO ∧
        userTranslate sampleLayout p.1.paging (fun _ _ => 0) 0x8400000 = some VIDEO)) = true := by
    decide +kernel
  have hinit : (systemMapped sampleMachine).init (sampleKernel, false) :=
    ⟨⟨sampleMemory, trivial, sampleKernel_started⟩, rfl⟩
  obtain ⟨⟨k, mapped⟩, hreach, hmapped, htarget, hmap⟩ :=
    System.Reachable.exists_of_run hinit _ hrun
  obtain rfl : mapped = true := hmapped
  have hpage : userTranslate sampleLayout k.paging (fun _ _ => 0) 0x8400000 =
      some (drawTarget k) := hall k hreach (fun _ _ => 0) 0 (by decide)
  rw [hmap, Option.some.injEq] at hpage
  exact htarget hpage.symm

end Kernel391
