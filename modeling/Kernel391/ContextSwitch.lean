import Kernel391.ProcessForest

/-!
# Context switches

The timer resumes a process from the `curr_esp` and `curr_ebp` in its PCB. They are stored
by whoever takes the processor away: `schedule`, `halt` with status 1, and `launch_term`
before it opens a terminal. `execute` moves `running_term` to the displayed terminal too,
and stores nothing.

To say that no old snapshot is resumed, the kernel runs with a history variable: for every
process, the registers at its latest operation. The invariant is that every process that
waits for the processor on top of a terminal has exactly those in its PCB. It survives
every step but an `execute` by a process whose terminal is not on display.
-/

namespace Kernel391

open TransitionSystem

/-! ## The history variable -/

/-- Stack pointer and frame pointer, as `schedule` stores and loads them. -/
abbrev Context := UInt32 × UInt32

def savedContext (k : Kernel) (p : Pid) : Context := ((k.pcb p).curr_esp, (k.pcb p).curr_ebp)

def Frame.context (fr : Frame) (k : Kernel) : Context := (fr.esp k, fr.ebp)

/-- The kernel entry of an operation that can take the processor away. -/
def Event.frame : Event → Option Frame
  | .execute _ fr => some fr
  | .halt _ fr _ => some fr
  | .launch_term _ fr _ => some fr
  | .tick fr => some fr
  | _ => none

/-- The registers each process had when it last held the processor. -/
abbrev Held := Pid → Context

/-- The running process is at operation `e`. -/
def noteHeld (k : Kernel) (e : Event) (held : Held) : Held :=
  match e.frame with
  | some fr => Function.update held k.cur_pid (fr.context k)
  | none => held

/-- The kernel with the history of who was where. -/
def systemHeld (m : Machine) : System (Kernel × Held) Event :=
  (system m fun _ => True).withHistory (fun _ _ => True) noteHeld

/-- The process on display is running, or `execute` will not start a process. -/
def ForegroundExecute (m : Machine) (k : Kernel) : Event → Prop
  | .execute command fr =>
    (∃ x, check_command m.img command fr k.fs = .accept x) → (∃ p, k.pid_array p = false) →
      k.curr_term = k.running_term
  | _ => True

/-! ## What a step does to saved contexts -/

/-- How one step treats saved contexts and the processes on top of the terminals. -/
structure ContextStep (k k' : Kernel) (fr : Option Frame) : Prop where
  /-- Only the running process's context is written. -/
  frame : ∀ q, q ≠ k.cur_pid → savedContext k' q = savedContext k q
  /-- Only the terminal that runs next can get a new process on top. -/
  tops : ∀ t, t ≠ k'.running_term → k'.running_pid t = k.running_pid t ∨ k'.running_pid t = none
  /-- A process left on top of its terminal has been saved. -/
  saved : k'.running_term ≠ k.running_term → k'.running_pid k.running_term = some k.cur_pid →
    ∃ f, fr = some f ∧ savedContext k' k.cur_pid = f.context k

theorem started_context (caller : Caller) (x : Executable) (p q : Pid) (fr : Frame) (k : Kernel)
    (frame : Pid → Bytes) (console : Console) :
    savedContext (started caller x p fr k frame console) q = savedContext k q := by
  exact update_field (fun b : Pcb => (b.curr_esp, b.curr_ebp)) q

theorem released_context (victim q : Pid) (k : Kernel) :
    savedContext (released victim k) q = savedContext k q := by
  exact update_field (fun b : Pcb => (b.curr_esp, b.curr_ebp)) q

/-- `execute` writes no context at all. -/
theorem execute_func_context {m : Machine} {caller : Caller} {command : Bytes} {fr : Frame}
    {k k' : Kernel} {out : Outcome} (h : execute_func m caller command fr k = some (k', out))
    (q : Pid) : savedContext k' q = savedContext k q := by
  rcases execute_func_cases h with ⟨fs, -, rfl, rfl⟩ | ⟨x, -, -, rfl, console, -, rfl⟩ |
    ⟨x, p, -, hfree, -, rfl, frame, console, -, rfl⟩
  · rfl
  · rfl
  · exact started_context ..

/-- Storing the registers of `p` in its PCB. -/
theorem savedContext_update (k : Kernel) (p q : Pid) (c : Context) :
    ((Function.update k.pcb p { k.pcb p with curr_esp := c.1, curr_ebp := c.2 } q).curr_esp,
      (Function.update k.pcb p { k.pcb p with curr_esp := c.1, curr_ebp := c.2 } q).curr_ebp) =
      if q = p then c else savedContext k q := by
  unfold savedContext
  by_cases hq : q = p
  · subst hq
    simp
  · simp [hq]

/-- The choice of a `halt` target saves the running process if its terminal is not the
target's. -/
theorem halt_target_context {status : UInt8} {fr : Frame} {k k₁ : Kernel} {victim : Pid}
    {t : TermId} {F : Forest TermId Pid} (hF : Refines k.links F)
    (h : halt_target status fr k.cli = some (victim, t, k₁)) :
    (∀ q, q ≠ k.cur_pid → savedContext k₁ q = savedContext k q) ∧
      (k.running_term ≠ t → savedContext k₁ k.cur_pid = fr.context k) := by
  have hcur : k.running_pid k.running_term = some k.cur_pid := hF.cur
  obtain ⟨console, -, hcases⟩ := halt_target_cases h
  rcases hcases with ⟨-, -, rfl, hrun, rfl⟩ | ⟨-, -, rfl, hrun, running, hr, rfl⟩ |
    ⟨-, -, rfl, rfl⟩
  · exact ⟨fun q _ => rfl, fun hne => absurd hrun hne⟩
  · have hself : running = k.cur_pid := Option.some.inj (hr.symm.trans hcur)
    subst hself
    have hset := savedContext_update k.cli k.cur_pid (c := fr.context k)
    refine ⟨fun q hq => ?_, fun _ => ?_⟩
    · exact (hset q).trans (if_neg hq)
    · exact (hset k.cur_pid).trans (if_pos rfl)
  · exact ⟨fun q _ => rfl, fun hne => absurd hF.cur_term (Ne.symm hne)⟩

/-- The process on top of terminal `u` after one has been attached to terminal `t`. -/
theorem attach_tops {l : Links} {k' : Kernel} {t : TermId} {p : Pid}
    (h : k'.links = l.attach t p) :
    k'.running_term = t ∧ ∀ u, u ≠ t → k'.running_pid u = l.running_pid u :=
  ⟨congrArg Links.running_term h, (attached_fields h).2.2.2.2.2⟩

theorem execute_contextStep {m : Machine} {k k' : Kernel} {command : Bytes} {fr : Frame}
    {out : Outcome} (hok : ForegroundExecute m k (.execute command fr))
    (h : execute_func m (.process k.cur_pid) command fr k = some (k', out)) :
    ContextStep k k' (some fr) := by
  refine ⟨fun q _ => execute_func_context h q, ?_, ?_⟩
  · rcases execute_func_links h with ⟨hsame, -⟩ | ⟨p, e, -, -, hattach⟩
    · exact fun t _ => Or.inl (congrFun (congrArg Links.running_pid hsame) t)
    · obtain ⟨hrun, htops⟩ := attach_tops hattach
      rw [hrun]
      exact fun t ht => Or.inl (htops t ht)
  · intro hmoved _
    rcases execute_func_cases h with ⟨fs, -, -, rfl⟩ | ⟨x, -, -, -, console, -, rfl⟩ |
      ⟨x, p, hcheck, hfree, -, -, frame, console, -, rfl⟩
    · exact absurd rfl hmoved
    · exact absurd rfl hmoved
    · exact absurd (hok ⟨x, hcheck⟩ ⟨p, hfree⟩) hmoved

theorem halt_contextStep {m : Machine} {k k' : Kernel} {status : UInt8} {fr frShell : Frame}
    {out : Outcome} {F : Forest TermId Pid} (hF : Refines k.links F)
    (h : halt_func m status fr frShell k = some (k', out)) : ContextStep k k' (some fr) := by
  obtain ⟨victim, t, k₁, htarget, -, hend⟩ := halt_func_cases h
  obtain ⟨hwhom, -, -⟩ := halt_target_links (k := k.cli) hF.cur_term htarget
  obtain ⟨hframe, hsaved⟩ := halt_target_context hF htarget
  have hcontext : ∀ q, savedContext k' q = savedContext k₁ q := by
    intro q
    rw [← released_context victim q k₁]
    rcases hend with ⟨parent, -, heq⟩ | ⟨-, e, -, hex⟩
    · rw [show k' = _ from congrArg Prod.fst heq]
      rfl
    · rw [execute_func_context hex q]
      rfl
  obtain ⟨v, u, hwhom', hlinks⟩ := halt_func_links hF.cur_term h
  have hu : u = t := (HaltTarget.unique hwhom' hwhom).2
  subst hu
  refine ⟨fun q hq => (hcontext q).trans (hframe q hq), ?_, ?_⟩
  · rcases hlinks with ⟨parent, -, hdetach⟩ | ⟨-, p, -, hattach⟩
    · rw [show k'.running_term = u from congrArg Links.running_term hdetach]
      intro t ht
      refine Or.inl ((congrFun (congrArg Links.running_pid hdetach) t).trans ?_)
      exact Function.update_of_ne ht ..
    · obtain ⟨hrun, htops⟩ := attach_tops hattach
      rw [hrun]
      intro t ht
      rw [htops t ht]
      by_cases htu : t = u
      · rw [htu]
        exact Or.inr (Function.update_self ..)
      · exact Or.inl (Function.update_of_ne htu ..)
  · intro hmoved htop
    refine ⟨fr, rfl, ?_⟩
    rw [hcontext]
    apply hsaved
    intro hrun
    rcases hlinks with ⟨parent, -, hdetach⟩ | ⟨-, p, -, hattach⟩
    · rw [show k'.running_term = u from congrArg Links.running_term hdetach] at hmoved
      exact hmoved hrun.symm
    · -- the terminal left is the one just emptied
      obtain ⟨hrun', htops⟩ := attach_tops hattach
      rw [hrun'] at hmoved
      rw [htops _ (Ne.symm hmoved), hrun] at htop
      rw [show (k.links.vacate v u).running_pid u = none from Function.update_self ..] at htop
      cases htop

theorem launch_term_contextStep {m : Machine} {k k' : Kernel} {t : TermId} {fr frShell : Frame}
    {out : Outcome} {F : Forest TermId Pid} (hF : Refines k.links F)
    (h : launch_term m t fr frShell k = some (k', out)) : ContextStep k k' (some fr) := by
  have hcur : k.running_pid k.running_term = some k.cur_pid := hF.cur
  rcases launch_term_cases h with ⟨-, rfl, -⟩ | ⟨-, -, old, hold, r, hex, -⟩ | ⟨-, -, rfl, -⟩
  · exact ⟨fun q _ => rfl, fun t _ => Or.inl rfl, fun hmoved => absurd rfl hmoved⟩
  · have hself : old = k.cur_pid := Option.some.inj (hold.symm.trans hcur)
    subst hself
    -- `launch_term` saves the running process before it calls `execute`
    have hset := savedContext_update k k.cur_pid (c := fr.context k)
    refine ⟨fun q hq => ?_, ?_, fun _ _ => ⟨fr, rfl, ?_⟩⟩
    · rw [execute_func_context hex q]
      exact (hset q).trans (if_neg hq)
    · rcases execute_func_links hex with ⟨hsame, -⟩ | ⟨p, e, -, -, hattach⟩
      · exact fun u _ => Or.inl (congrFun (congrArg Links.running_pid hsame) u)
      · obtain ⟨hrun, htops⟩ := attach_tops hattach
        rw [hrun]
        exact fun u hu => Or.inl (htops u hu)
    · rw [execute_func_context hex k.cur_pid]
      exact (hset k.cur_pid).trans (if_pos rfl)
  · exact ⟨fun q _ => rfl, fun t _ => Or.inl rfl, fun hmoved => absurd rfl hmoved⟩

theorem switched_context (m : Machine) (t : TermId) (p curr q : Pid) (fr : Frame) (k : Kernel) :
    savedContext (switched m t p curr fr k) q =
      if q = curr then fr.context k else savedContext k q :=
  savedContext_update k curr q (fr.context k)

/-- What one step does, for every operation. -/
theorem step_contextStep {m : Machine} {k k' : Kernel} {e : Event} {out : Outcome}
    {F : Forest TermId Pid} (hF : Refines k.links F) (hok : ForegroundExecute m k e)
    (hs : step m k e = some (k', out)) : ContextStep k k' e.frame := by
  have hcur : k.running_pid k.running_term = some k.cur_pid := hF.cur
  rcases step_quiet hs with ⟨command, fr, rfl⟩ | ⟨status, fr, frShell, rfl⟩ |
    ⟨t, fr, frShell, rfl⟩ | ⟨fr, rfl⟩ | ⟨hquiet, -⟩
  · exact execute_contextStep hok hs
  · exact halt_contextStep hF hs
  · exact launch_term_contextStep hF hs
  · obtain ⟨htick, -⟩ := step_tick hs
    rcases pit_interrupt_handler_cases hF.stacked.number htick with ⟨-, -, rfl⟩ |
      ⟨-, t, p, curr, -, hcurr, rfl⟩
    · exact ⟨fun q _ => rfl, fun t _ => Or.inl rfl, fun hmoved => absurd rfl hmoved⟩
    · have hself : curr = k.cur_pid := Option.some.inj (hcurr.symm.trans hcur)
      subst hself
      refine ⟨fun q hq => ?_, fun u _ => ?_, fun _ _ => ⟨fr, rfl, ?_⟩⟩
      · rw [switched_context, if_neg hq]
      · have hlinks := links_switched m t p k.cur_pid fr k
        exact Or.inl (congrFun (congrArg Links.running_pid hlinks) u)
      · rw [switched_context, if_pos rfl]
  · have hlinks := hquiet.links_eq
    obtain ⟨table, freq, paging, console, fs, frame, -, rfl⟩ := hquiet
    refine ⟨fun q hq => ?_, fun u _ => Or.inl (congrFun (congrArg Links.running_pid hlinks) u),
      fun hmoved => absurd rfl hmoved⟩
    unfold savedContext
    dsimp only
    rw [Function.update_of_ne hq]

/-! ## No old snapshot is resumed -/

/-- Every process that waits on top of a terminal has in its PCB the registers it had when
it last held the processor. -/
def ContextsFresh (k : Kernel) (held : Held) : Prop :=
  ∀ t p, t ≠ k.running_term → k.running_pid t = some p → savedContext k p = held p

theorem noteHeld_of_ne {k : Kernel} {e : Event} {held : Held} {p : Pid} (h : p ≠ k.cur_pid) :
    noteHeld k e held p = held p := by
  unfold noteHeld
  cases e.frame with
  | none => rfl
  | some fr => exact Function.update_of_ne h ..

theorem noteHeld_cur {k : Kernel} {e : Event} {held : Held} {fr : Frame} (h : e.frame = some fr) :
    noteHeld k e held k.cur_pid = fr.context k := by
  unfold noteHeld
  rw [h]
  exact Function.update_self ..

/-- A process on top of a terminal that does not run is not the running one. -/
theorem Refines.top_ne_cur {k : Kernel} {F : Forest TermId Pid} {t : TermId} {p : Pid}
    (hF : Refines k.links F) (ht : t ≠ k.running_term) (hp : k.running_pid t = some p) :
    p ≠ k.cur_pid := by
  intro hpc
  subst hpc
  exact ht (F.family.disjoint _ _ _ (hF.stacked.mem_top hp) hF.cur_mem)

/-- One step keeps the waiting contexts fresh. -/
theorem step_contextsFresh {k k' : Kernel} {e : Event} {held : Held} {F : Forest TermId Pid}
    (hF : Refines k.links F) (hfresh : ContextsFresh k held)
    (hstep : ContextStep k k' e.frame) : ContextsFresh k' (noteHeld k e held) := by
  intro t p ht hp
  have htop : k.running_pid t = some p := by
    rcases hstep.tops t ht with hsame | hnone
    · rw [← hsame]
      exact hp
    · rw [hnone] at hp
      cases hp
  by_cases hrun : t = k.running_term
  · -- the terminal just left: its process has been saved by this very step
    subst hrun
    have hcur : k.running_pid k.running_term = some k.cur_pid := hF.cur
    have hpc : p = k.cur_pid := Option.some.inj (htop.symm.trans hcur)
    subst hpc
    obtain ⟨fr, hfr, hsaved⟩ := hstep.saved (Ne.symm ht) hp
    rw [hsaved, noteHeld_cur hfr]
  · have hpc : p ≠ k.cur_pid := hF.top_ne_cur hrun htop
    rw [hstep.frame p hpc, noteHeld_of_ne hpc]
    exact hfresh t p hrun htop

/-- With only one terminal in use the scheduler resumes nothing. -/
def Switches (k : Kernel) : Prop := k.running_pid 1 ≠ none ∨ k.running_pid 2 ≠ none

instance (k : Kernel) : Decidable (Switches k) := by
  unfold Switches
  infer_instance

/-- Runs with their history are runs. -/
theorem reachable_of_held {m : Machine} {ok : Kernel → Event → Prop} {s : Kernel × Held}
    (h : (systemHeld m).ReachableWhere (fun s => ok s.1) s) : Reachable m s.1 := by
  have hrun : (system m fun _ => True).ReachableWhere ok s.1 := System.withHistory_erase h
  exact ReachableWhere.reachable hrun

/-- Every run has its history. -/
theorem held_of_run {m : Machine} {ok : Kernel → Event → Prop} {k : Kernel}
    (h : ReachableWhere m ok k) :
    ∃ held, (systemHeld m).ReachableWhere (fun s => ok s.1) (k, held) :=
  System.withHistory_lift (fun _ _ => ⟨fun _ => (0, 0), trivial⟩) h

theorem contextsFresh_of_run {m : Machine} {s : Kernel × Held}
    (h : (systemHeld m).ReachableWhere (fun s => ForegroundExecute m s.1) s) :
    ContextsFresh s.1 s.2 := by
  refine System.ReachableWhere.invariant (P := fun s => ContextsFresh s.1 s.2) h
    (fun s h0 => ?_) fun s e s' hr hfresh hok hstep => ?_
  · -- only the first terminal has a process, and it runs
    obtain ⟨⟨mem, -, fr, e, hex⟩, -⟩ := h0
    intro t p ht hp
    rcases execute_func_links hex with ⟨-, hout⟩ | ⟨q, e', -, -, hattach⟩
    · exact absurd rfl (hout e)
    · obtain ⟨hrun, htops⟩ := attach_tops hattach
      rw [hrun] at ht
      rw [htops t ht] at hp
      cases hp
  · obtain ⟨F, hF⟩ := (reachable_of_held hr).refines
    obtain ⟨hs, hheld⟩ := System.withHistory_step_iff.mp hstep
    obtain ⟨out, hs⟩ := system_step_iff.mp hs
    rw [hheld]
    exact step_contextsFresh hF hfresh (step_contextStep hF hok hs)

/-- A kernel entry with a different stack and frame. -/
def laterFrame : Frame :=
  { sampleFrame with pushed := 200, pushed_pos := by decide, ebp := 0x7ffe00 }

end Kernel391
