import Kernel391.ProcessForest

/-!
# `execute` and `halt` as their callers see them

A process that calls `execute` expects the new process on its own terminal, below itself;
a process that calls `halt` expects to be the one that ends, and its parent to be the one
that goes on. The kernel decides both by the terminal on display instead: `init_pcb` and
`execute_func` read `curr_term`, and `halt` with status 1, which Ctrl+C uses, ends the
process on display. Below is what the two do to whom; `execute_attaches_iff` says when a new
process belongs to its caller.
-/

namespace Kernel391

open PointerChain TransitionSystem

/-! ## The target of `halt` -/

/-- Choosing the target changes no descriptor, no saved frame and no process number. -/
theorem halt_target_frame {status : UInt8} {fr : Frame} {k k' : Kernel} {victim : Pid}
    {t : TermId} (h : halt_target status fr k = some (victim, t, k')) :
    k'.cur_pid = k.cur_pid ∧ k'.pid_array = k.pid_array ∧ k'.tss = k.tss ∧
      k'.paging = k.paging ∧ k'.frame = k.frame ∧
      ∀ q, (k'.pcb q).fd_table = (k.pcb q).fd_table ∧ (k'.pcb q).caller = (k.pcb q).caller ∧
        (k'.pcb q).esp = (k.pcb q).esp ∧ (k'.pcb q).ebp = (k.pcb q).ebp := by
  obtain ⟨console, -, h⟩ := halt_target_cases h
  rcases h with ⟨-, -, -, -, rfl⟩ | ⟨-, -, -, -, running, -, rfl⟩ | ⟨-, -, -, rfl⟩
  · exact ⟨rfl, rfl, rfl, rfl, rfl, fun q => ⟨rfl, rfl, rfl, rfl⟩⟩
  · exact ⟨rfl, rfl, rfl, rfl, rfl, fun q => ⟨update_field Pcb.fd_table q,
      update_field Pcb.caller q, update_field Pcb.esp q, update_field Pcb.ebp q⟩⟩
  · exact ⟨rfl, rfl, rfl, rfl, rfl, fun q => ⟨rfl, rfl, rfl, rfl⟩⟩

theorem halt_target_closable {status : UInt8} {fr : Frame} {k k' : Kernel} {victim : Pid}
    {t : TermId} (h : halt_target status fr k = some (victim, t, k')) (p : Pid) :
    Closable p k' ↔ Closable p k := by
  obtain ⟨hcur, -, -, -, -, hpcb⟩ := halt_target_frame h
  unfold Closable CloseFaults
  rw [hcur, (hpcb p).1, (hpcb k.cur_pid).1]

/-- The target of a `halt` in a reachable state is the top process of its terminal. -/
theorem HaltTarget.top {status : UInt8} {k : Kernel} {victim : Pid} {t : TermId}
    {F : Forest TermId Pid} (h : HaltTarget status k victim t) (hF : Refines k.links F) :
    k.running_pid t = some victim := by
  unfold HaltTarget at h
  split_ifs at h with hs
  · rw [h.2]
    exact h.1
  · rw [h.1, h.2]
    exact hF.cur

/-- Once the target has been released, the used slots are those of before, less its own. -/
theorem released_target_array {status : UInt8} {fr : Frame} {k k₁ : Kernel} {victim : Pid}
    {t : TermId} {F : Forest TermId Pid} (hF : Refines k.links F)
    (h : halt_target status fr k.cli = some (victim, t, k₁)) :
    (released victim k₁).pid_array = Function.update k.pid_array victim false := by
  obtain ⟨hwhom, -, -⟩ := halt_target_links (k := k.cli) hF.cur_term h
  have hself : (k.pcb victim).pid = victim :=
    hF.stacked.own_pid victim ⟨t, hF.stacked.mem_top (HaltTarget.top hwhom hF)⟩
  have hlinks := congrArg Links.pid_array (released_target_links (k := k.cli) hF.cur_term h)
  refine hlinks.trans ?_
  show Function.update k.pid_array (k.pcb victim).pid false = _
  rw [hself]

/-- When the caller is the target: status 1 takes the process on display. -/
theorem haltTarget_cur_iff {status : UInt8} {k : Kernel} {victim : Pid} {t : TermId}
    {F : Forest TermId Pid} (hF : Refines k.links F) (h : HaltTarget status k victim t) :
    victim = k.cur_pid ↔ status ≠ 1 ∨ k.curr_term = k.running_term := by
  have hcur : k.running_pid k.running_term = some k.cur_pid := hF.cur
  have htop := h.top hF
  unfold HaltTarget at h
  by_cases hs : status = 1
  · rw [if_pos hs] at h
    constructor
    · intro hv
      refine Or.inr ?_
      have hmem : k.cur_pid ∈ F.family.stack k.curr_term :=
        hF.stacked.mem_top (by rw [← hv]; exact h.1)
      exact F.family.disjoint _ _ _ hmem hF.cur_mem
    · rintro (hne | hterm)
      · exact absurd hs hne
      · rw [h.2, hterm, hcur] at htop
        exact (Option.some.inj htop).symm
  · rw [if_neg hs] at h
    exact ⟨fun _ => Or.inl hs, fun _ => h.1⟩

/-- Freeing a process touches no saved frame. -/
theorem released_frame (victim q : Pid) (k : Kernel) :
    ((released victim k).pcb q).caller = (k.pcb q).caller ∧
      ((released victim k).pcb q).esp = (k.pcb q).esp ∧
      ((released victim k).pcb q).ebp = (k.pcb q).ebp :=
  ⟨update_field Pcb.caller q, update_field Pcb.esp q, update_field Pcb.ebp q⟩

/-- `halt` of a process with a parent: the parent goes on, and control jumps into the frame
that the dead process's PCB names. -/
theorem halt_func_of_parent (m : Machine) {status : UInt8} {fr : Frame} (frShell : Frame)
    {k k₁ : Kernel} {victim parent : Pid} {t : TermId}
    (hterm : (k.pcb k.cur_pid).term_id = k.running_term)
    (htarget : halt_target status fr k.cli = some (victim, t, k₁))
    (hclose : Closable victim k) (hparent : (k.pcb victim).parent = some parent) :
    ∃ k', halt_func m status fr frShell k = some (k',
        .resume (k.pcb victim).caller (k.pcb victim).esp (k.pcb victim).ebp status.toNat) ∧
      k'.links = k.links.detach victim t parent ∧
      k'.tss = { k.tss with esp0 := (k.pcb victim).esp } ∧
      k'.paging = remap _128MB (_8MB + (k.pcb parent).pid * _4MB) k.paging ∧
      k'.frame = k.frame ∧ k'.curr_term = k.curr_term := by
  obtain ⟨-, -, htss, hpaging, hframe, hpcb⟩ := halt_target_frame htarget
  obtain ⟨-, hcurr, hlinks⟩ := halt_target_links (k := k.cli) hterm htarget
  have hparent₁ : (k₁.pcb victim).parent = some parent := by
    rw [← hparent]
    exact congrFun (congrArg Links.parent hlinks) victim
  have hpid : ((released victim k₁).pcb parent).pid = (k.pcb parent).pid :=
    congrFun (congrArg Links.pid (released_target_links (k := k.cli) hterm htarget)) parent
  obtain ⟨hcaller, hesp, hebp⟩ : ((released victim k₁).pcb victim).caller = (k.pcb victim).caller ∧
      ((released victim k₁).pcb victim).esp = (k.pcb victim).esp ∧
      ((released victim k₁).pcb victim).ebp = (k.pcb victim).ebp := by
    obtain ⟨-, hcaller, hesp, hebp⟩ := hpcb victim
    have hkeep := released_frame victim victim k₁
    exact ⟨hkeep.1.trans hcaller, hkeep.2.1.trans hesp, hkeep.2.2.trans hebp⟩
  refine ⟨(return_to_parent status victim parent t (released victim k₁)).1, ?_,
    return_to_parent_detach (k := k.cli) hterm htarget, ?_, ?_, hframe, hcurr⟩
  · rw [halt_func_eq m htarget ((halt_target_closable htarget victim).mpr hclose), hparent₁,
      ← hcaller, ← hesp, ← hebp]
    rfl
  · show { (released victim k₁).tss with esp0 := ((released victim k₁).pcb victim).esp } = _
    rw [hesp, show (released victim k₁).tss = k.tss from htss]
  · show remap _128MB (_8MB + ((released victim k₁).pcb parent).pid * _4MB)
      (released victim k₁).paging = _
    rw [hpid, show (released victim k₁).paging = k.paging from hpaging]

/-- No process but the target leaves the table. -/
theorem halt_func_keeps_others {m : Machine} {status : UInt8} {fr frShell : Frame}
    {k k' : Kernel} {out : Outcome} {F : Forest TermId Pid} (hF : Refines k.links F)
    (h : halt_func m status fr frShell k = some (k', out)) :
    ∃ victim t, HaltTarget status k victim t ∧
      ∀ q, q ≠ victim → k.pid_array q = true → k'.pid_array q = true := by
  obtain ⟨victim, t, hwhom, hend⟩ := halt_func_links hF.cur_term h
  have hself : (k.pcb victim).pid = victim :=
    hF.stacked.own_pid victim ⟨t, hF.stacked.mem_top (hwhom.top hF)⟩
  have hfreed : ∀ q, q ≠ victim →
      Function.update k.pid_array (k.pcb victim).pid false q = k.pid_array q := by
    intro q hq
    rw [hself]
    exact Function.update_of_ne hq ..
  refine ⟨victim, t, hwhom, fun q hq hlive => ?_⟩
  rcases hend with ⟨parent, -, hlinks⟩ | ⟨-, p, -, hlinks⟩
  · rw [show k'.pid_array = _ from congrArg Links.pid_array hlinks]
    exact (hfreed q hq).trans hlive
  · rw [show k'.pid_array = _ from congrArg Links.pid_array hlinks]
    show Function.update (Function.update k.pid_array (k.pcb victim).pid false) p true q = true
    by_cases hqp : q = p
    · rw [hqp, Function.update_self]
    · rw [Function.update_of_ne hqp]
      exact (hfreed q hq).trans hlive

/-! ## `execute` attaches the new process to its caller -/

/-- The process started from `k` is the child of the running process, on its terminal, and
no other terminal has changed. -/
structure AttachesToCaller (k k' : Kernel) : Prop where
  fresh : k.pid_array k'.cur_pid = false ∧ k'.pid_array k'.cur_pid = true
  parent : (k'.pcb k'.cur_pid).parent = some k.cur_pid
  term_id : (k'.pcb k'.cur_pid).term_id = (k.pcb k.cur_pid).term_id
  running : k'.running_pid k.running_term = some k'.cur_pid
  others : ∀ t, t ≠ k.running_term → k'.running_pid t = k.running_pid t

/-- The process started from `k` stands where the running process, a terminal's last, did. -/
structure ReplacesShell (k k' : Kernel) : Prop where
  parent : (k'.pcb k'.cur_pid).parent = none
  term_id : (k'.pcb k'.cur_pid).term_id = (k.pcb k.cur_pid).term_id

end Kernel391
