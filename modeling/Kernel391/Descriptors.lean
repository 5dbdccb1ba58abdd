import Kernel391.Callers

/-!
# Descriptors of dead processes

`init_pcb` does not clear a descriptor table: a new process relies on the previous owner of
its slot having closed everything. `halt` closes the victim's files, but through the
`close` system call, which acts on the running process. The two are the same process
except when Ctrl+C ends the process on display while another terminal runs.
-/

namespace Kernel391

open TransitionSystem

/-! ## What `halt` does to the descriptor tables -/

/-- The descriptor tables after a `halt` of `victim`. -/
def closedTables (victim : Pid) (k : Kernel) (q : Pid) : Fd → FileDesc :=
  if q = k.cur_pid then
    closedTable (fun fd => ((k.pcb victim).fd_table fd).flags) (k.pcb k.cur_pid).fd_table
  else (k.pcb q).fd_table

theorem released_fd_table (victim q : Pid) (k : Kernel) :
    ((released victim k).pcb q).fd_table = closedTables victim k q := by
  unfold released closedTables
  rw [setTable_fd_table]

/-- The tables once the target has been released. -/
theorem released_target_tables {status : UInt8} {fr : Frame} {k k₁ : Kernel} {victim : Pid}
    {t : TermId} (h : halt_target status fr k.cli = some (victim, t, k₁)) (q : Pid) :
    ((released victim k₁).pcb q).fd_table = closedTables victim k q := by
  obtain ⟨hcur, -, -, -, -, hpcb⟩ := halt_target_frame h
  rw [released_fd_table]
  unfold closedTables
  rw [hcur, (hpcb victim).1, (hpcb q).1, (hpcb k.cli.cur_pid).1]
  rfl

/-- The tables are those of the kernel `halt` was called in, with the same descriptors
closed, except that a new shell marks descriptors 0 and 1 of its slot, which was free. -/
theorem halt_func_tables {m : Machine} {status : UInt8} {fr frShell : Frame} {k k' : Kernel}
    {out : Outcome} {victim : Pid} {t : TermId} {F : Forest TermId Pid} (hF : Refines k.links F)
    (hwhom : HaltTarget status k victim t)
    (h : halt_func m status fr frShell k = some (k', out)) :
    (∀ q fd, 2 ≤ fd.val → (k'.pcb q).fd_table fd = closedTables victim k q fd) ∧
      ∀ q, q ≠ victim → k.pid_array q = true →
        (k'.pcb q).fd_table = closedTables victim k q := by
  obtain ⟨v, u, k₁, htarget, -, hend⟩ := halt_func_cases h
  obtain ⟨hwhom', -, -⟩ := halt_target_links (k := k.cli) hF.cur_term htarget
  have hv : v = victim := (HaltTarget.unique hwhom' hwhom).1
  subst hv
  have htables : ∀ q, ((released v k₁).pcb q).fd_table = closedTables v k q :=
    released_target_tables htarget
  rcases hend with ⟨parent, -, heq⟩ | ⟨-, e, -, hex⟩
  · have hk' : k'.pcb = (released v k₁).pcb := by
      rw [show k' = _ from congrArg Prod.fst heq]
      rfl
    rw [hk']
    exact ⟨fun q fd _ => by rw [htables], fun q _ _ => htables q⟩
  · rcases execute_func_cases hex with ⟨fs, -, hout, -⟩ | ⟨x, -, -, hout, -⟩ |
      ⟨x, p, -, hfree, -, -, frame, console, -, rfl⟩
    · cases hout
    · cases hout
    · constructor
      · intro q fd hfd
        rw [started_fd_table _ _ _ _ _ _ _ _ hfd, ← htables]
        rfl
      · intro q hq hlive
        -- the new shell took a free slot
        have hqp : q ≠ p := by
          intro hqp
          have hdead : (released v k₁).pid_array q = false := hqp ▸ hfree
          rw [released_target_array hF htarget, Function.update_of_ne hq, hlive] at hdead
          cases hdead
        rw [started_pcb_of_ne _ _ _ _ _ _ _ _ hqp, ← htables]
        rfl

/-! ## When `halt` releases the right descriptors -/

/-- The dead process has no file open, and no other live process lost or gained one. -/
structure ReleasesExactly (k k' : Kernel) (victim : Pid) : Prop where
  freed : ∀ fd, 2 ≤ fd.val → ((k'.pcb victim).fd_table fd).flags = false
  others : ∀ q, q ≠ victim → k.pid_array q = true → (k'.pcb q).fd_table = (k.pcb q).fd_table

/-- The victim is the running process, or it has no file open. -/
def OwnFiles (k : Kernel) (victim : Pid) : Prop :=
  victim = k.cur_pid ∨ ∀ fd, 2 ≤ fd.val → ((k.pcb victim).fd_table fd).flags = false

theorem releasesExactly_iff {k k' : Kernel} {victim : Pid}
    (hhigh : ∀ q fd, 2 ≤ fd.val → (k'.pcb q).fd_table fd = closedTables victim k q fd)
    (hothers : ∀ q, q ≠ victim → k.pid_array q = true →
      (k'.pcb q).fd_table = closedTables victim k q) :
    ReleasesExactly k k' victim ↔ OwnFiles k victim := by
  constructor
  · intro hrel
    by_cases hv : victim = k.cur_pid
    · exact Or.inl hv
    · refine Or.inr fun fd hfd => ?_
      -- `close` went to the running process: the victim's own flags are as they were
      have hfree := hrel.freed fd hfd
      rw [hhigh victim fd hfd] at hfree
      unfold closedTables at hfree
      rw [if_neg hv] at hfree
      exact hfree
  · rintro (rfl | hnone)
    · refine ⟨fun fd hfd => ?_, fun q hq hlive => ?_⟩
      · rw [hhigh _ fd hfd]
        unfold closedTables closedTable
        rw [if_pos rfl]
        by_cases hflag : ((k.pcb k.cur_pid).fd_table fd).flags = true
        · rw [if_pos ⟨hfd, hflag⟩]
        · rw [if_neg fun h => hflag h.2]
          simpa using hflag
      · rw [hothers q hq hlive]
        unfold closedTables
        rw [if_neg hq]
    · have hsame : ∀ q, closedTables victim k q = (k.pcb q).fd_table := by
        intro q
        unfold closedTables
        rw [closedTable_eq_self _ hnone]
        split_ifs with hq
        · rw [hq]
        · rfl
      refine ⟨fun fd hfd => ?_, fun q hq hlive => ?_⟩
      · rw [hhigh victim fd hfd, hsame]
        exact hnone fd hfd
      · rw [hothers q hq hlive, hsame]

/-! ## Slots are handed on clean -/

/-- Every `halt` of this kind ends the running process, or one without open files. -/
def HaltsCleanly (k : Kernel) : Event → Prop
  | .halt status _ _ => ∀ victim t, HaltTarget status k victim t → OwnFiles k victim
  | _ => True

/-- No descriptor is marked in use at boot. -/
def ClearTables (mem : BootMemory) : Prop := ∀ p fd, ((mem.pcb p).fd_table fd).flags = false

/-- The slots a new process can get have no file open. -/
def FreeSlotsClear (k : Kernel) : Prop :=
  ∀ p, k.pid_array p = false → ∀ fd : Fd, 2 ≤ fd.val → ((k.pcb p).fd_table fd).flags = false

/-- Starting a process, in whatever slot, opens no file. -/
theorem execute_func_clear {m : Machine} {caller : Caller} {command : Bytes} {fr : Frame}
    {k k' : Kernel} {out : Outcome} (h : execute_func m caller command fr k = some (k', out))
    (hk : FreeSlotsClear k) :
    FreeSlotsClear k' ∧ ((∃ e, out = .enterUser e) →
      ∀ fd : Fd, 2 ≤ fd.val → ((k'.pcb k'.cur_pid).fd_table fd).flags = false) := by
  rcases execute_func_cases h with ⟨fs, -, rfl, rfl⟩ | ⟨x, -, -, rfl, console, -, rfl⟩ |
    ⟨x, p, -, hfree, -, rfl, frame, console, -, rfl⟩
  · exact ⟨hk, by simp⟩
  · exact ⟨hk, by simp⟩
  · constructor
    · intro q hq fd hfd
      have hqp : q ≠ p := by
        intro hqp
        have hdead : Function.update k.pid_array p true q = false := hq
        rw [hqp, Function.update_self] at hdead
        cases hdead
      have hdead : Function.update k.pid_array p true q = false := hq
      rw [Function.update_of_ne hqp] at hdead
      rw [started_fd_table _ _ _ _ _ _ _ _ hfd]
      exact hk q hdead fd hfd
    · intro _ fd hfd
      rw [started_fd_table _ _ _ _ _ _ _ _ hfd]
      exact hk p hfree fd hfd

/-- Clear slots depend on the used slots and the tables alone. -/
theorem FreeSlotsClear.congr {k k' : Kernel} (hk : FreeSlotsClear k)
    (harray : k'.pid_array = k.pid_array)
    (htable : ∀ q, k.pid_array q = false → (k'.pcb q).fd_table = (k.pcb q).fd_table) :
    FreeSlotsClear k' := by
  intro q hq fd hfd
  rw [harray] at hq
  rw [htable q hq]
  exact hk q hq fd hfd

/-- A target that is the running process, or has no file open, leaves its slot clear. -/
theorem released_clear {status : UInt8} {fr : Frame} {k k₁ : Kernel} {victim : Pid}
    {t : TermId} {F : Forest TermId Pid} (hF : Refines k.links F) (hk : FreeSlotsClear k)
    (hown : OwnFiles k victim) (h : halt_target status fr k.cli = some (victim, t, k₁)) :
    FreeSlotsClear (released victim k₁) := by
  have hrel : ReleasesExactly k (released victim k₁) victim :=
    (releasesExactly_iff (fun q fd _ => congrFun (released_target_tables h q) fd)
      fun q _ _ => released_target_tables h q).mpr hown
  intro q hq fd hfd
  by_cases hv : q = victim
  · rw [hv]
    exact hrel.freed fd hfd
  · rw [released_target_array hF h, Function.update_of_ne hv] at hq
    have hcur : q ≠ k.cur_pid := by
      intro hcur
      have hlive : k.pid_array k.cur_pid = true := hF.cur_used
      rw [← hcur, hq] at hlive
      cases hlive
    rw [released_target_tables h q]
    unfold closedTables
    rw [if_neg hcur]
    exact hk q hq fd hfd

/-- One step of a run that halts cleanly leaves free slots clear, and whatever process it
starts has no file open. -/
theorem step_clear {m : Machine} {k k' : Kernel} {e : Event} {out : Outcome}
    {F : Forest TermId Pid} (hF : Refines k.links F) (hk : FreeSlotsClear k)
    (hclean : HaltsCleanly k e) (hs : step m k e = some (k', out)) :
    FreeSlotsClear k' ∧ ((∃ entry, out = .enterUser entry) →
      ∀ fd : Fd, 2 ≤ fd.val → ((k'.pcb k'.cur_pid).fd_table fd).flags = false) := by
  have hlive : k.pid_array k.cur_pid = true := hF.cur_used
  rcases step_quiet hs with ⟨command, fr, rfl⟩ | ⟨status, fr, frShell, rfl⟩ |
    ⟨t, fr, frShell, rfl⟩ | ⟨fr, rfl⟩ | ⟨hquiet, v, hv⟩
  · exact execute_func_clear hs hk
  · obtain ⟨victim, t, k₁, htarget, -, hend⟩ := halt_func_cases hs
    obtain ⟨hwhom, -, -⟩ := halt_target_links (k := k.cli) hF.cur_term htarget
    have hreleased := released_clear hF hk (hclean victim t hwhom) htarget
    rcases hend with ⟨parent, -, heq⟩ | ⟨-, e, -, hex⟩
    · rw [return_to_parent, Prod.mk.injEq] at heq
      refine ⟨?_, ?_⟩
      · rw [heq.1]
        exact hreleased.congr rfl fun q _ => rfl
      · intro hout
        obtain ⟨entry, hout⟩ := hout
        rw [heq.2] at hout
        cases hout
    · have hstarted := execute_func_clear hex (hreleased.congr rfl fun q _ => rfl)
      exact ⟨hstarted.1, fun _ => hstarted.2 ⟨e, rfl⟩⟩
  · rcases launch_term_cases hs with ⟨-, rfl, rfl⟩ | ⟨-, -, old, -, r, hex, hout⟩ |
      ⟨-, -, rfl, rfl⟩
    · exact ⟨hk.congr rfl fun q _ => rfl, by rintro ⟨entry, hout⟩; cases hout⟩
    · have hopen : FreeSlotsClear (opening t old fr k) :=
        hk.congr rfl fun q _ => update_field Pcb.fd_table q
      have hstarted := execute_func_clear hex hopen
      refine ⟨hstarted.1, ?_⟩
      rintro ⟨entry, hentry⟩
      rcases hout with ⟨e, hr, -⟩ | ⟨-, hret⟩
      · exact hstarted.2 ⟨e, hr⟩
      · rw [hret] at hentry
        cases hentry
    · exact ⟨hk.congr rfl fun q _ => rfl, by rintro ⟨entry, hout⟩; cases hout⟩
  · obtain ⟨htick, rfl⟩ := step_tick hs
    refine ⟨?_, by rintro ⟨entry, hout⟩; cases hout⟩
    rcases pit_interrupt_handler_cases hF.stacked.number htick with ⟨-, -, rfl⟩ |
      ⟨-, t, p, curr, -, -, rfl⟩
    · exact hk.congr rfl fun q _ => rfl
    · exact hk.congr rfl fun q _ => update_field Pcb.fd_table q
  · obtain ⟨table, freq, paging, console, fs, frame, -, rfl⟩ := hquiet
    refine ⟨hk.congr rfl fun q hq => ?_, ?_⟩
    · have hqcur : q ≠ k.cur_pid := by
        intro hqcur
        rw [hqcur, hlive] at hq
        cases hq
      show (Function.update k.pcb k.cur_pid _ q).fd_table = _
      rw [Function.update_of_ne hqcur]
    · rintro ⟨entry, hout⟩
      rw [hv] at hout
      cases hout

/-- The first shell opens no file, and leaves the other slots as they were. -/
theorem started_clear {m : Machine} {mem : BootMemory} {k : Kernel} (hmem : ClearTables mem)
    (h : Started m mem k) :
    FreeSlotsClear k ∧ ∀ fd : Fd, 2 ≤ fd.val → ((k.pcb k.cur_pid).fd_table fd).flags = false := by
  obtain ⟨fr, e, hex⟩ := h
  have hboot : FreeSlotsClear (boot m mem) := fun p _ fd _ => hmem p fd
  have hstarted := execute_func_clear hex hboot
  exact ⟨hstarted.1, hstarted.2 ⟨e, rfl⟩⟩

/-- In every run that halts cleanly the free slots stay clear. -/
theorem freeSlotsClear_of_run {m : Machine} {k : Kernel}
    (h : (system m ClearTables).ReachableWhere HaltsCleanly k) : FreeSlotsClear k := by
  refine System.ReachableWhere.invariant h (fun k h0 => ?_) fun k e k' hr hk hclean hstep => ?_
  · obtain ⟨mem, hmem, hstart⟩ := h0
    exact (started_clear hmem hstart).1
  · obtain ⟨F, hF⟩ := (reachable_of_boot hr).refines
    obtain ⟨out, hs⟩ := system_step_iff.mp hstep
    exact (step_clear hF hk hclean hs).1

/-- A `halt` releases exactly the descriptors of the process it ends if and only if that is
the running process, or has no file open. In a run all of whose `halt`s are such, from
cleared tables on, every process starts without open files. -/
theorem halt_releases_iff (m : Machine) :
    (∀ k, Reachable m k → ∀ status fr frShell k' out victim t,
      HaltTarget status k victim t → step m k (.halt status fr frShell) = some (k', out) →
      (ReleasesExactly k k' victim ↔ OwnFiles k victim)) ∧
    (∀ mem k, ClearTables mem → Started m mem k →
      ∀ fd : Fd, 2 ≤ fd.val → ((k.pcb k.cur_pid).fd_table fd).flags = false) ∧
    (∀ k, (system m ClearTables).ReachableWhere HaltsCleanly k →
      ∀ e k' entry, HaltsCleanly k e → step m k e = some (k', .enterUser entry) →
      ∀ fd : Fd, 2 ≤ fd.val → ((k'.pcb k'.cur_pid).fd_table fd).flags = false) := by
  refine ⟨?_, fun mem k hmem hstart => (started_clear hmem hstart).2, ?_⟩
  · intro k h status fr frShell k' out victim t hwhom hstep
    obtain ⟨F, hF⟩ := h.refines
    obtain ⟨hhigh, hothers⟩ := halt_func_tables hF hwhom hstep
    exact releasesExactly_iff hhigh hothers
  · intro k h e k' entry hclean hstep
    obtain ⟨F, hF⟩ := (reachable_of_boot h).refines
    exact (step_clear hF (freeSlotsClear_of_run h) hclean hstep).2 ⟨entry, rfl⟩

/-- A program with a file open halts: its file is closed. -/
theorem halt_releases_own_file : ∃ k, Reachable sampleMachine k ∧
    ((k.pcb k.cur_pid).fd_table 2).flags = true ∧
    ∃ k' out, step sampleMachine k (.halt 0 sampleFrame sampleFrame) = some (k', out) ∧
      ReleasesExactly k k' k.cur_pid := by
  obtain ⟨k, hreach, hcheck⟩ := sampleRun_exists
    [.execute sampleMachine.shell sampleFrame, .open_file (some sampleMachine.shell)]
    (fun k => ((k.pcb k.cur_pid).fd_table 2).flags &&
      (step sampleMachine k (.halt 0 sampleFrame sampleFrame)).isSome) (by decide +kernel)
  rw [Bool.and_eq_true] at hcheck
  obtain ⟨hopen, hsome⟩ := hcheck
  obtain ⟨⟨k', out⟩, hstep⟩ := Option.isSome_iff_exists.mp hsome
  have hwhom : HaltTarget 0 k k.cur_pid k.running_term := by
    unfold HaltTarget
    rw [if_neg (by decide)]
    exact ⟨rfl, rfl⟩
  exact ⟨k, hreach, hopen, k', out, hstep,
    ((halt_releases_iff sampleMachine).1 k hreach 0 sampleFrame sampleFrame k' out k.cur_pid
      k.running_term hwhom hstep).mpr (Or.inl rfl)⟩

/-- Ctrl+C ends the shell of terminal 1, which has a file open, while terminal 0 runs. The
file stays open, and the new shell in the same slot owns it. -/
theorem halt_leaves_file_open : ¬ ∀ k, Reachable sampleMachine k →
    ∀ status fr frShell k' out victim t, HaltTarget status k victim t →
      step sampleMachine k (.halt status fr frShell) = some (k', out) →
      ReleasesExactly k k' victim := by
  intro hall
  obtain ⟨k, hreach, hcheck⟩ := sampleRun_exists
    [.launch_term 1 sampleFrame sampleFrame, .open_file (some sampleMachine.shell),
      .tick sampleFrame]
    (fun k => decide (k.running_pid k.curr_term = some 1) &&
      (step sampleMachine k (.halt 1 sampleFrame sampleFrame)).any
        fun r : Kernel × Outcome => ((r.1.pcb 1).fd_table 2).flags) (by decide +kernel)
  rw [Bool.and_eq_true, decide_eq_true_eq, Option.any_eq_true] at hcheck
  obtain ⟨hvictim, ⟨k', out⟩, hstep, hopen⟩ := hcheck
  have hwhom : HaltTarget 1 k 1 k.curr_term := by
    unfold HaltTarget
    rw [if_pos rfl]
    exact ⟨hvictim, rfl⟩
  have hrel := hall k hreach 1 sampleFrame sampleFrame k' out 1 k.curr_term hwhom hstep
  have hclosed := hrel.freed 2 (by decide)
  rw [show ((k'.pcb 1).fd_table 2).flags = true from hopen] at hclosed
  cases hclosed

end Kernel391
