import Kernel391.Forest
import Kernel391.CommandTheorems

/-!
# The process table is a forest

The kernel refines the abstract model of `Forest`: in every reachable state the chain of
parent pointers from each terminal's `running_pid` is that terminal's stack, the used
slots of the process table are exactly the processes on the stacks, and the running
process is the top of the running terminal's stack.

`Links` is the part of the kernel state this is about. Each operation changes it in one of
few ways (`LinkStep`), and every one of those is a step of the abstract model.
-/

namespace Kernel391

open PointerChain TransitionSystem

/-! ## The links between processes and terminals -/

/-- The fields that tie processes and terminals together. -/
structure Links where
  pid_array : Pid → Bool
  parent : Pid → Option Pid
  pid : Pid → Pid
  term_id : Pid → TermId
  running_pid : TermId → Option Pid
  /-- `term[t].term_id` -/
  number : TermId → TermId
  cur_pid : Pid
  running_term : TermId

def Kernel.links (k : Kernel) : Links where
  pid_array := k.pid_array
  parent p := (k.pcb p).parent
  pid p := (k.pcb p).pid
  term_id p := (k.pcb p).term_id
  running_pid t := k.running_pid t
  number t := (k.term t).term_id
  cur_pid := k.cur_pid
  running_term := k.running_term

namespace Links

/-- A new process `p` on terminal `t`. -/
def attach (l : Links) (t : TermId) (p : Pid) : Links where
  pid_array := Function.update l.pid_array p true
  parent := Function.update l.parent p (l.running_pid t)
  pid := Function.update l.pid p p
  term_id := Function.update l.term_id p t
  running_pid := Function.update l.running_pid t (some p)
  number := l.number
  cur_pid := p
  running_term := t

theorem attach_cur (l : Links) (t : TermId) (p : Pid) :
    (l.attach t p).running_pid (l.attach t p).running_term = some (l.attach t p).cur_pid := by
  show Function.update l.running_pid t (some p) t = some p
  rw [Function.update_self]

/-- Process `p` of terminal `t` ends, and its parent goes on. -/
def detach (l : Links) (p : Pid) (t : TermId) (parent : Pid) : Links :=
  { l with
    pid_array := Function.update l.pid_array (l.pid p) false
    running_pid := Function.update l.running_pid t (some (l.pid parent))
    cur_pid := l.pid parent
    running_term := t }

/-- Process `p`, the last of terminal `t`, ends. -/
def vacate (l : Links) (p : Pid) (t : TermId) : Links :=
  { l with
    pid_array := Function.update l.pid_array (l.pid p) false
    running_pid := Function.update l.running_pid t none
    running_term := t }

/-- Terminal `t` runs, with process `p`. -/
def switchTo (l : Links) (t : TermId) (p : Pid) : Links :=
  { l with running_term := t, cur_pid := p }

end Links

/-! ## What each operation does to the links -/

/-- One field of a table of records after one record has changed. -/
theorem field_update {ι β γ : Type} [DecidableEq ι] (f : β → γ) (g : ι → β) (i : ι) (b : β) :
    (fun j => f (Function.update g i b j)) = Function.update (fun j => f (g j)) i (f b) := by
  funext j
  exact Function.apply_update (fun _ => f) g i b j

@[simp] theorem links_started (caller : Caller) (x : Executable) (p : Pid) (fr : Frame)
    (k : Kernel) (frame : Pid → Bytes) (console : Console) :
    (started caller x p fr k frame console).links = k.links.attach k.curr_term p := by
  have hnumber : (fun t => (Function.update k.term k.curr_term
      { k.term k.curr_term with running_pid := some p, ss0 := KERNEL_DS, esp0 := stack_base p }
      t).term_id) = fun t => (k.term t).term_id :=
    funext fun u => update_field TermInfo.term_id u
  unfold Kernel.links started Links.attach
  dsimp only [Kernel.running_pid]
  rw [field_update Pcb.parent, field_update Pcb.pid, field_update Pcb.term_id,
    field_update TermInfo.running_pid, hnumber]
  rfl

/-- Changes to a descriptor table, a saved context or a clock rate leave the links alone. -/
theorem links_congr {k k' : Kernel} (harray : k'.pid_array = k.pid_array)
    (hcur : k'.cur_pid = k.cur_pid) (hrun : k'.running_term = k.running_term)
    (hpcb : ∀ p, (k'.pcb p).parent = (k.pcb p).parent ∧ (k'.pcb p).pid = (k.pcb p).pid ∧
      (k'.pcb p).term_id = (k.pcb p).term_id)
    (hterm : ∀ t, k'.running_pid t = k.running_pid t ∧
      (k'.term t).term_id = (k.term t).term_id) : k'.links = k.links := by
  have hparent : (fun p => (k'.pcb p).parent) = fun p => (k.pcb p).parent :=
    funext fun p => (hpcb p).1
  have hpid : (fun p => (k'.pcb p).pid) = fun p => (k.pcb p).pid :=
    funext fun p => (hpcb p).2.1
  have hterm_id : (fun p => (k'.pcb p).term_id) = fun p => (k.pcb p).term_id :=
    funext fun p => (hpcb p).2.2
  have hrunning : (fun t => k'.running_pid t) = fun t => k.running_pid t :=
    funext fun t => (hterm t).1
  have hnumber : (fun t => (k'.term t).term_id) = fun t => (k.term t).term_id :=
    funext fun t => (hterm t).2
  unfold Kernel.links
  rw [harray, hcur, hrun, hparent, hpid, hterm_id, hrunning, hnumber]

/-- The record of `pcb` after one of its other fields has changed. -/
theorem pcb_links_update {k : Kernel} {q : Pid} {b : Pcb} (hparent : b.parent = (k.pcb q).parent)
    (hpid : b.pid = (k.pcb q).pid) (hterm : b.term_id = (k.pcb q).term_id) (p : Pid) :
    (Function.update k.pcb q b p).parent = (k.pcb p).parent ∧
      (Function.update k.pcb q b p).pid = (k.pcb p).pid ∧
      (Function.update k.pcb q b p).term_id = (k.pcb p).term_id := by
  exact ⟨update_field Pcb.parent p hparent, update_field Pcb.pid p hpid,
    update_field Pcb.term_id p hterm⟩

theorem term_links_update {k : Kernel} {u : TermId} {i : TermInfo}
    (hrun : i.running_pid = k.running_pid u) (hid : i.term_id = (k.term u).term_id) (t : TermId) :
    (Function.update k.term u i t).running_pid = k.running_pid t ∧
      (Function.update k.term u i t).term_id = (k.term t).term_id := by
  exact ⟨update_field TermInfo.running_pid t hrun, update_field TermInfo.term_id t hid⟩

theorem Quiet.links_eq {k k' : Kernel} (h : Quiet k k') : k'.links = k.links := by
  obtain ⟨table, freq, paging, console, fs, frame, -, rfl⟩ := h
  exact links_congr rfl rfl rfl (pcb_links_update rfl rfl rfl) (term_links_update rfl rfl)

theorem links_suspended (running : Pid) (fr : Frame) (k : Kernel) :
    (suspended running fr k).links = { k.links with running_term := k.curr_term } := by
  have hsame : ({ suspended running fr k with running_term := k.running_term } : Kernel).links =
      k.links :=
    links_congr rfl rfl rfl (pcb_links_update rfl rfl rfl) (term_links_update rfl rfl)
  rw [← hsame]
  rfl

theorem links_opening (t : TermId) (old : Pid) (fr : Frame) (k : Kernel) :
    (opening t old fr k).links = k.links :=
  links_congr rfl rfl rfl (pcb_links_update rfl rfl rfl) fun _ => ⟨rfl, rfl⟩

theorem links_switched (m : Machine) (t : TermId) (p curr : Pid) (fr : Frame) (k : Kernel) :
    (switched m t p curr fr k).links = k.links.switchTo t p := by
  have hsame : ({ switched m t p curr fr k with
      running_term := k.running_term, cur_pid := k.cur_pid } : Kernel).links = k.links :=
    links_congr rfl rfl rfl (pcb_links_update rfl rfl rfl) (term_links_update rfl rfl)
  rw [← hsame]
  rfl

theorem links_released (victim : Pid) (k : Kernel) :
    (released victim k).links =
      { k.links with pid_array := Function.update k.pid_array (k.pcb victim).pid false } := by
  have hsame : ({ released victim k with pid_array := k.pid_array } : Kernel).links = k.links :=
    links_congr rfl rfl rfl (pcb_links_update rfl rfl rfl) fun _ => ⟨rfl, rfl⟩
  rw [← hsame]
  rfl

/-- The links once terminal `t` has `next` for its running process. -/
theorem links_set_running (t : TermId) (next : Option Pid) (k : Kernel) :
    (k.modTerm t fun i => { i with running_pid := next }).links =
      { k.links with running_pid := Function.update k.links.running_pid t next } := by
  have hnumber : (fun u => (Function.update k.term t
      { k.term t with running_pid := next } u).term_id) = fun u => (k.term u).term_id :=
    funext fun u => update_field TermInfo.term_id u
  unfold Kernel.links Kernel.modTerm
  dsimp only [Kernel.running_pid]
  rw [field_update TermInfo.running_pid, hnumber]

theorem links_return_to_parent (status : UInt8) (victim parent : Pid) (t : TermId) (k : Kernel) :
    (return_to_parent status victim parent t k).1.links =
      { k.links with
        running_pid := Function.update k.links.running_pid t (some (k.pcb parent).pid)
        cur_pid := (k.pcb parent).pid } := by
  have hset := links_set_running t (some (k.pcb parent).pid) k
  unfold return_to_parent
  show { (k.modTerm t fun i => { i with running_pid := some (k.pcb parent).pid }).links with
    cur_pid := (k.pcb parent).pid } = _
  rw [hset]

/-- What the links say of a process just attached. -/
theorem attached_fields {l : Links} {k' : Kernel} {t : TermId} {p : Pid}
    (h : k'.links = l.attach t p) :
    k'.cur_pid = p ∧ (k'.pcb p).parent = l.running_pid t ∧ (k'.pcb p).term_id = t ∧
      k'.pid_array p = true ∧ k'.running_pid t = some p ∧
      ∀ u, u ≠ t → k'.running_pid u = l.running_pid u := by
  have hparent := congrFun (congrArg Links.parent h) p
  have hterm := congrFun (congrArg Links.term_id h) p
  have harray := congrFun (congrArg Links.pid_array h) p
  have hrunning := congrFun (congrArg Links.running_pid h)
  refine ⟨congrArg Links.cur_pid h, hparent.trans ?_, hterm.trans ?_, harray.trans ?_,
    (hrunning t).trans ?_, fun u hu => (hrunning u).trans ?_⟩
  · exact Function.update_self ..
  · exact Function.update_self ..
  · exact Function.update_self ..
  · exact Function.update_self ..
  · exact Function.update_of_ne hu ..

/-- `execute` either leaves the links alone or attaches a process to the displayed
terminal. -/
theorem execute_func_links {m : Machine} {caller : Caller} {command : Bytes} {fr : Frame}
    {k k' : Kernel} {out : Outcome} (h : execute_func m caller command fr k = some (k', out)) :
    (k'.links = k.links ∧ ∀ e, out ≠ .enterUser e) ∨
      ∃ p e, k.pid_array p = false ∧ out = .enterUser e ∧
        k'.links = k.links.attach k.curr_term p := by
  rcases execute_func_cases h with ⟨fs, -, rfl, rfl⟩ | ⟨x, -, -, rfl, console, -, rfl⟩ |
    ⟨x, p, -, hfree, -, rfl, frame, console, -, rfl⟩
  · exact Or.inl ⟨rfl, by simp⟩
  · exact Or.inl ⟨rfl, by simp⟩
  · exact Or.inr ⟨p, x.entry_point, hfree, rfl, links_started _ _ _ _ _ _ _⟩

/-- Whom a `halt` with this status ends, and on which terminal. -/
def HaltTarget (status : UInt8) (k : Kernel) (victim : Pid) (t : TermId) : Prop :=
  if status = 1 then k.running_pid k.curr_term = some victim ∧ t = k.curr_term
  else victim = k.cur_pid ∧ t = k.running_term

theorem HaltTarget.unique {status : UInt8} {k : Kernel} {v v' : Pid} {t t' : TermId}
    (h : HaltTarget status k v t) (h' : HaltTarget status k v' t') : v = v' ∧ t = t' := by
  unfold HaltTarget at h h'
  split_ifs at h h' with hs
  · exact ⟨Option.some.inj (h.1.symm.trans h'.1), h.2.trans h'.2.symm⟩
  · exact ⟨h.1.trans h'.1.symm, h.2.trans h'.2.symm⟩

/-- The choice of the target only moves `running_term`. -/
theorem halt_target_links {status : UInt8} {fr : Frame} {k k' : Kernel} {victim : Pid}
    {t : TermId} (hterm : (k.pcb k.cur_pid).term_id = k.running_term)
    (h : halt_target status fr k = some (victim, t, k')) :
    HaltTarget status k victim t ∧ k'.curr_term = k.curr_term ∧
      k'.links = { k.links with running_term := t } := by
  obtain ⟨console, -, h⟩ := halt_target_cases h
  unfold HaltTarget
  rcases h with ⟨hs, hv, rfl, hrun, rfl⟩ | ⟨hs, hv, rfl, hrun, running, hr, rfl⟩ |
    ⟨hs, rfl, rfl, rfl⟩
  · rw [if_pos hs]
    refine ⟨⟨hv, rfl⟩, rfl, ?_⟩
    rw [← hrun]
    rfl
  · rw [if_pos hs]
    exact ⟨⟨hv, rfl⟩, rfl, links_suspended running fr k⟩
  · rw [if_neg hs]
    refine ⟨⟨rfl, hterm⟩, rfl, ?_⟩
    rw [hterm]
    rfl

/-- The links once the target has been chosen and its slot freed. -/
theorem released_target_links {status : UInt8} {fr : Frame} {k k₁ : Kernel} {victim : Pid}
    {t : TermId} (hterm : (k.pcb k.cur_pid).term_id = k.running_term)
    (h : halt_target status fr k = some (victim, t, k₁)) :
    (released victim k₁).links =
      { k.links with
        pid_array := Function.update k.pid_array (k.pcb victim).pid false, running_term := t } := by
  obtain ⟨-, -, hlinks⟩ := halt_target_links hterm h
  have hpid : (k₁.pcb victim).pid = (k.pcb victim).pid :=
    congrFun (congrArg Links.pid hlinks) victim
  have harray : k₁.pid_array = k.pid_array := congrArg Links.pid_array hlinks
  rw [links_released, hlinks, hpid, harray]

/-- Back in the parent, the links have lost the target. -/
theorem return_to_parent_detach {status : UInt8} {fr : Frame} {k k₁ : Kernel}
    {victim parent : Pid} {t : TermId} (hterm : (k.pcb k.cur_pid).term_id = k.running_term)
    (h : halt_target status fr k = some (victim, t, k₁)) :
    (return_to_parent status victim parent t (released victim k₁)).1.links =
      k.links.detach victim t parent := by
  have hreleased := released_target_links hterm h
  have hown : ((released victim k₁).pcb parent).pid = (k.pcb parent).pid :=
    congrFun (congrArg Links.pid hreleased) parent
  rw [links_return_to_parent, hreleased, hown]
  rfl

/-- `halt` detaches its target, or replaces the last process of a terminal by a new one on
the displayed terminal. -/
theorem halt_func_links {m : Machine} {status : UInt8} {fr frShell : Frame} {k k' : Kernel}
    {out : Outcome} (hterm : (k.pcb k.cur_pid).term_id = k.running_term)
    (h : halt_func m status fr frShell k = some (k', out)) :
    ∃ victim t, HaltTarget status k victim t ∧
      ((∃ parent, (k.pcb victim).parent = some parent ∧
          k'.links = k.links.detach victim t parent) ∨
        ((k.pcb victim).parent = none ∧ ∃ p, (k.links.vacate victim t).pid_array p = false ∧
          k'.links = (k.links.vacate victim t).attach k.curr_term p)) := by
  obtain ⟨victim, t, k₁, htarget, -, hend⟩ := halt_func_cases h
  obtain ⟨hwhom, hcurr, hlinks⟩ := halt_target_links (k := k.cli) hterm htarget
  have hparent : (k₁.pcb victim).parent = (k.pcb victim).parent :=
    congrFun (congrArg Links.parent hlinks) victim
  refine ⟨victim, t, hwhom, ?_⟩
  rcases hend with ⟨parent, hp, heq⟩ | ⟨hp, e, -, hex⟩
  · refine Or.inl ⟨parent, hparent ▸ hp, ?_⟩
    have hk' : k' = (return_to_parent status victim parent t (released victim k₁)).1 :=
      congrArg Prod.fst heq
    rw [hk']
    exact return_to_parent_detach (k := k.cli) hterm htarget
  · refine Or.inr ⟨hparent ▸ hp, ?_⟩
    have hvacated : ((released victim k₁).modTerm t fun i => { i with running_pid := none }).links =
        k.links.vacate victim t := by
      rw [links_set_running, released_target_links (k := k.cli) hterm htarget]
      rfl
    rcases execute_func_links hex with ⟨-, hout⟩ | ⟨p, e', hfree, -, hattach⟩
    · exact absurd rfl (hout e)
    · refine ⟨p, ?_, ?_⟩
      · rw [← hvacated]
        exact hfree
      · rw [hattach, hvacated]
        exact congrArg (fun u => Links.attach _ u p) hcurr

/-! ## The refinement -/

/-- The links store the stacks `S`. -/
structure Stacked (l : Links) (S : Stacks TermId Pid) : Prop where
  chain : ∀ t, IsChain l.parent (l.running_pid t) (S.stack t)
  used : ∀ p, l.pid_array p = true ↔ S.Mem p
  own_pid : ∀ p, S.Mem p → l.pid p = p
  own_term : ∀ t p, p ∈ S.stack t → l.term_id p = t
  number : ∀ t, l.number t = t

/-- The links store the forest `F`. -/
structure Refines (l : Links) (F : Forest TermId Pid) : Prop where
  stacked : Stacked l F.family
  running : l.running_term = F.running
  cur : l.running_pid l.running_term = some l.cur_pid

namespace Stacked

variable {l : Links} {S : Stacks TermId Pid} {t : TermId} {p : Pid}

/-- A free slot is on no stack. -/
theorem not_mem (h : Stacked l S) (hp : l.pid_array p = false) : ¬ S.Mem p := by
  intro hmem
  have hused := (h.used p).mpr hmem
  rw [hp] at hused
  cases hused

/-- The running process of a terminal is on top of its stack. -/
theorem stack_eq (h : Stacked l S) (hp : l.running_pid t = some p) :
    ∃ rest, S.stack t = p :: rest ∧ IsChain l.parent (l.parent p) rest := by
  have hchain := h.chain t
  rw [hp] at hchain
  exact hchain.pop

theorem mem_top (h : Stacked l S) (hp : l.running_pid t = some p) : p ∈ S.stack t := by
  obtain ⟨rest, hstack, -⟩ := h.stack_eq hp
  rw [hstack]
  exact List.mem_cons_self ..

/-- A terminal has a process exactly when its stack is not empty. -/
theorem running_pid_eq_none_iff (h : Stacked l S) :
    l.running_pid t = none ↔ S.stack t = [] := by
  rw [(h.chain t).head?, List.head?_eq_none_iff]

/-- A new process on top of terminal `t`. -/
theorem attach (h : Stacked l S) (hp : l.pid_array p = false) :
    Stacked (l.attach t p) (S.push t p (h.not_mem hp)) := by
  have hnew := h.not_mem hp
  refine ⟨fun u => ?_, fun q => ?_, fun q hq => ?_, fun u q hq => ?_, h.number⟩
  · by_cases hu : u = t
    · -- the new process is linked in front of the old chain
      subst hu
      rw [Stacks.push_stack_self]
      show IsChain (Function.update l.parent p (l.running_pid u))
        (Function.update l.running_pid u (some p) u) (p :: S.stack u)
      rw [Function.update_self]
      refine (h.chain u).push (fun hmem => hnew ⟨u, hmem⟩) (Function.update_self ..) ?_
      intro q hq
      exact Function.update_of_ne hq ..
    · -- no other chain passes through a free slot
      rw [Stacks.push_stack_of_ne _ hu]
      show IsChain (Function.update l.parent p (l.running_pid t))
        (Function.update l.running_pid t (some p) u) (S.stack u)
      rw [Function.update_of_ne hu]
      refine (h.chain u).congr fun q hq => ?_
      have hqp : q ≠ p := fun hqp => hnew ⟨u, hqp ▸ hq⟩
      exact Function.update_of_ne hqp ..
  · rw [Stacks.mem_push]
    show Function.update l.pid_array p true q = true ↔ _
    by_cases hq : q = p
    · subst hq
      simp
    · rw [Function.update_of_ne hq, h.used q]
      simp [hq]
  · show Function.update l.pid p p q = q
    by_cases hqp : q = p
    · subst hqp
      exact Function.update_self ..
    · rw [Function.update_of_ne hqp]
      rcases (Stacks.mem_push _).mp hq with hq | hq
      · exact absurd hq hqp
      · exact h.own_pid q hq
  · show Function.update l.term_id p t q = u
    by_cases hu : u = t
    · subst hu
      rw [Stacks.push_stack_self, List.mem_cons] at hq
      by_cases hqp : q = p
      · subst hqp
        exact Function.update_self ..
      · rw [Function.update_of_ne hqp]
        exact h.own_term u q (hq.resolve_left hqp)
    · rw [Stacks.push_stack_of_ne _ hu] at hq
      have hqp : q ≠ p := fun hqp => hnew ⟨u, hqp ▸ hq⟩
      rw [Function.update_of_ne hqp]
      exact h.own_term u q hq

/-- The top process of terminal `t` gone, and the terminal left to its parent. -/
theorem pop (h : Stacked l S) (hp : l.running_pid t = some p) :
    Stacked { l with
      pid_array := Function.update l.pid_array p false
      running_pid := Function.update l.running_pid t (l.parent p) } (S.pop t) := by
  obtain ⟨rest, hstack, hrest⟩ := h.stack_eq hp
  have hmem : ∀ q, (S.pop t).Mem q ↔ q ≠ p ∧ S.Mem q := fun q => Stacks.mem_pop hstack
  refine ⟨fun u => ?_, fun q => ?_, fun q hq => ?_, fun u q hq => ?_, h.number⟩
  · show IsChain l.parent (Function.update l.running_pid t (l.parent p) u) _
    by_cases hu : u = t
    · subst hu
      rw [Function.update_self, Stacks.pop_stack_self, hstack]
      exact hrest
    · rw [Function.update_of_ne hu, Stacks.pop_stack_of_ne hu]
      exact h.chain u
  · rw [hmem]
    show Function.update l.pid_array p false q = true ↔ _
    by_cases hq : q = p
    · subst hq
      simp
    · rw [Function.update_of_ne hq, h.used q]
      simp [hq]
  · exact h.own_pid q ((hmem q).mp hq).2
  · show l.term_id q = u
    by_cases hu : u = t
    · subst hu
      rw [Stacks.pop_stack_self] at hq
      exact h.own_term u q (List.mem_of_mem_tail hq)
    · rw [Stacks.pop_stack_of_ne hu] at hq
      exact h.own_term u q hq

/-- The parent of a process on a stack lies below it. -/
theorem parent_mem {parent : Pid} (h : Stacked l S) (hp : l.running_pid t = some p)
    (hparent : l.parent p = some parent) : ∃ rest, S.stack t = p :: parent :: rest := by
  obtain ⟨rest, hstack, hrest⟩ := h.stack_eq hp
  rw [hparent] at hrest
  obtain ⟨rest', rfl, -⟩ := hrest.pop
  exact ⟨rest', hstack⟩

theorem parent_own {parent : Pid} (h : Stacked l S) (hp : l.running_pid t = some p)
    (hparent : l.parent p = some parent) : l.pid parent = parent := by
  obtain ⟨rest, hstack⟩ := h.parent_mem hp hparent
  refine h.own_pid parent ⟨t, ?_⟩
  rw [hstack]
  exact List.mem_cons_of_mem _ (List.mem_cons_self ..)

theorem detach {parent : Pid} (h : Stacked l S) (hp : l.running_pid t = some p)
    (hparent : l.parent p = some parent) : Stacked (l.detach p t parent) (S.pop t) := by
  have hown : l.pid parent = parent := h.parent_own hp hparent
  have hself : l.pid p = p := h.own_pid p ⟨t, h.mem_top hp⟩
  have hpop := h.pop hp
  rw [hparent] at hpop
  unfold Links.detach
  rw [hown, hself]
  exact ⟨hpop.chain, hpop.used, hpop.own_pid, hpop.own_term, hpop.number⟩

theorem vacate (h : Stacked l S) (hp : l.running_pid t = some p) (hparent : l.parent p = none) :
    Stacked (l.vacate p t) (S.pop t) := by
  have hself : l.pid p = p := h.own_pid p ⟨t, h.mem_top hp⟩
  have hpop := h.pop hp
  rw [hparent] at hpop
  unfold Links.vacate
  rw [hself]
  exact ⟨hpop.chain, hpop.used, hpop.own_pid, hpop.own_term, hpop.number⟩

/-- A process and its parent are on the same terminal. -/
theorem parent_stack {q : Pid} {u : TermId} (h : Stacked l S) (hq : q ∈ S.stack u)
    (hparent : l.parent q = some p) : p ∈ S.stack u := by
  obtain ⟨l₁, l₂, hstack, hrest⟩ := (h.chain u).of_mem hq
  have htail : IsChain l.parent (some p) l₂ := by
    rw [← hparent]
    exact hrest.2
  obtain ⟨l₃, rfl, -⟩ := htail.pop
  rw [hstack]
  exact List.mem_append_right _ (List.mem_cons_of_mem _ (List.mem_cons_self ..))

/-- The parent of a process that is in use is in use, and on top of no terminal. -/
theorem parent_below {q : Pid} (h : Stacked l S) (hq : l.pid_array q = true)
    (hparent : l.parent q = some p) : l.pid_array p = true ∧ ∀ t, l.running_pid t ≠ some p := by
  obtain ⟨u, hu⟩ := (h.used q).mp hq
  have hbelow := h.parent_stack hu hparent
  refine ⟨(h.used p).mpr ⟨u, hbelow⟩, fun t ht => ?_⟩
  have htu : t = u := S.disjoint t u p (h.mem_top ht) hbelow
  exact (h.chain u).next_ne_start hu hparent (htu ▸ ht)

/-- A process has one child at most. -/
theorem child_unique {q q' : Pid} (h : Stacked l S) (hq : l.pid_array q = true)
    (hq' : l.pid_array q' = true) (hparent : l.parent q = some p)
    (hparent' : l.parent q' = some p) : q = q' := by
  obtain ⟨u, hu⟩ := (h.used q).mp hq
  obtain ⟨u', hu'⟩ := (h.used q').mp hq'
  have huu : u' = u := S.disjoint u' u p (h.parent_stack hu' hparent') (h.parent_stack hu hparent)
  exact (h.chain u).prev_unique hu (huu ▸ hu') hparent hparent'

end Stacked

namespace Refines

variable {l : Links} {F : Forest TermId Pid} {t u : TermId} {p q : Pid}

theorem attach (h : Refines l F) (hp : l.pid_array p = false) :
    Refines (l.attach t p) (F.spawn t p (h.stacked.not_mem hp)) :=
  ⟨h.stacked.attach hp, rfl, Links.attach_cur l t p⟩

theorem detach {parent : Pid} (h : Refines l F) (hp : l.running_pid t = some p)
    (hparent : l.parent p = some parent) :
    ∃ hbelow, Refines (l.detach p t parent) (F.finish t hbelow) := by
  obtain ⟨rest, hstack⟩ := h.stacked.parent_mem hp hparent
  have hbelow : (F.family.stack t).tail ≠ [] := by
    rw [hstack]
    exact List.cons_ne_nil _ _
  exact ⟨hbelow, h.stacked.detach hp hparent, rfl, Function.update_self ..⟩

/-- The last process of terminal `t` replaced by a new one on terminal `u`. -/
theorem replace (h : Refines l F) (hp : l.running_pid t = some p) (hparent : l.parent p = none)
    (hq : (l.vacate p t).pid_array q = false) :
    F.family.stack t = [p] ∧
      ∃ hnew, Refines ((l.vacate p t).attach u q) (F.restart t u q hnew) := by
  obtain ⟨rest, hstack, hrest⟩ := h.stacked.stack_eq hp
  rw [hparent] at hrest
  -- without a parent the chain ends at the victim
  have hnil : rest = [] := hrest.unique (show IsChain l.parent none [] from rfl)
  have hvacated := h.stacked.vacate hp hparent
  rw [hnil] at hstack
  exact ⟨hstack, hvacated.not_mem hq, hvacated.attach hq, rfl, Links.attach_cur _ u q⟩

theorem switchTo (h : Refines l F) (hp : l.running_pid t = some p) :
    ∃ hbusy, Refines (l.switchTo t p) (F.switch t hbusy) := by
  have hbusy : F.family.stack t ≠ [] := by
    intro hnil
    have hnone := h.stacked.running_pid_eq_none_iff.mpr hnil
    rw [hp] at hnone
    cases hnone
  have hs := h.stacked
  exact ⟨hbusy, ⟨hs.chain, hs.used, hs.own_pid, hs.own_term, hs.number⟩, rfl, hp⟩

/-- The running process is on the stack of the running terminal. -/
theorem cur_mem (h : Refines l F) : l.cur_pid ∈ F.family.stack l.running_term :=
  h.stacked.mem_top h.cur

theorem cur_term (h : Refines l F) : l.term_id l.cur_pid = l.running_term :=
  h.stacked.own_term _ _ h.cur_mem

theorem cur_used (h : Refines l F) : l.pid_array l.cur_pid = true :=
  (h.stacked.used _).mpr ⟨_, h.cur_mem⟩

theorem cur_own (h : Refines l F) : l.pid l.cur_pid = l.cur_pid :=
  h.stacked.own_pid _ ⟨_, h.cur_mem⟩

end Refines

/-! ## Every run -/

/-- Each operation of the kernel is a step of the abstract model. -/
theorem step_refines {m : Machine} {k k' : Kernel} {e : Event} {out : Outcome}
    {F : Forest TermId Pid} (h : Refines k.links F) (hs : step m k e = some (k', out)) :
    ∃ F', Forest.Step F F' ∧ Refines k'.links F' := by
  rcases step_quiet hs with ⟨command, fr, rfl⟩ | ⟨status, fr, frShell, rfl⟩ |
    ⟨t, fr, frShell, rfl⟩ | ⟨fr, rfl⟩ | ⟨hquiet, -⟩
  · rcases execute_func_links hs with ⟨hsame, -⟩ | ⟨p, e, hfree, -, hattach⟩
    · exact ⟨F, .stay F, hsame ▸ h⟩
    · rw [hattach]
      exact ⟨_, .spawn F _ p _, h.attach hfree⟩
  · obtain ⟨victim, t, hwhom, hend⟩ := halt_func_links h.cur_term hs
    have htop : k.links.running_pid t = some victim := by
      unfold HaltTarget at hwhom
      split_ifs at hwhom with hs1
      · rw [hwhom.2]
        exact hwhom.1
      · rw [hwhom.1, hwhom.2]
        exact h.cur
    rcases hend with ⟨parent, hparent, hdetach⟩ | ⟨hparent, p, hfree, hattach⟩
    · -- the parent goes on
      obtain ⟨hbelow, href⟩ := h.detach htop hparent
      rw [hdetach]
      exact ⟨_, .finish F t hbelow, href⟩
    · -- a new shell, on the terminal on display
      obtain ⟨hstack, hnew, href⟩ := h.replace (u := k.curr_term) htop hparent hfree
      rw [hattach]
      exact ⟨_, .restart F t _ p victim hstack hnew, href⟩
  · rcases launch_term_cases hs with ⟨-, rfl, -⟩ | ⟨-, -, old, -, r, hex, -⟩ | ⟨-, -, rfl, -⟩
    · exact ⟨F, .stay F, h⟩
    · -- a terminal without a process gets a shell
      have hopen : Refines (opening t old fr k).links F := (links_opening t old fr k).symm ▸ h
      rcases execute_func_links hex with ⟨hsame, -⟩ | ⟨p, e, hfree, -, hattach⟩
      · exact ⟨F, .stay F, hsame ▸ hopen⟩
      · rw [hattach]
        exact ⟨_, .spawn F _ p _, hopen.attach hfree⟩
    · exact ⟨F, .stay F, h⟩
  · obtain ⟨htick, -⟩ := step_tick hs
    rcases pit_interrupt_handler_cases h.stacked.number htick with ⟨-, -, rfl⟩ |
      ⟨-, t, p, curr, hnext, -, rfl⟩
    · exact ⟨F, .stay F, h⟩
    · obtain ⟨hbusy, href⟩ := h.switchTo (get_next_process_spec hnext)
      rw [links_switched]
      exact ⟨_, .switch F t hbusy, href⟩
  · rw [hquiet.links_eq]
    exact ⟨F, .stay F, h⟩

/-- Nothing is live at boot. -/
theorem stacked_boot (m : Machine) (mem : BootMemory) :
    Stacked (boot m mem).links (Stacks.empty : Stacks TermId Pid) := by
  refine ⟨fun t => rfl, fun p => ?_, fun p hp => ?_, fun t p hp => ?_, fun t => rfl⟩
  · constructor
    · intro h
      cases h
    · rintro ⟨t, ht⟩
      exact absurd ht List.not_mem_nil
  · obtain ⟨t, ht⟩ := hp
    exact absurd ht List.not_mem_nil
  · exact absurd hp List.not_mem_nil

/-- The first shell is alone. -/
theorem started_refines {m : Machine} {mem : BootMemory} {k : Kernel} (h : Started m mem k) :
    ∃ p, Refines k.links (Forest.single 0 p) := by
  obtain ⟨fr, e, hex⟩ := h
  rcases execute_func_links hex with ⟨-, hout⟩ | ⟨p, e', hfree, -, hattach⟩
  · exact absurd rfl (hout e)
  · refine ⟨p, ?_⟩
    rw [hattach]
    exact ⟨(stacked_boot m mem).attach hfree, rfl, Links.attach_cur _ _ p⟩

/-- The kernel simulates the abstract model. -/
theorem kernel_simulates_forest (m : Machine) (B : BootMemory → Prop) :
    System.Simulates (system m B) (fun _ _ => True) Forest.Step
      (fun F => ∃ p, F = Forest.single 0 p) (fun k F => Refines k.links F) where
  init k h := by
    obtain ⟨mem, -, hstart⟩ := h
    obtain ⟨p, href⟩ := started_refines hstart
    exact ⟨_, ⟨p, rfl⟩, href⟩
  step k e k' F hF _ hstep := by
    obtain ⟨out, hs⟩ := system_step_iff.mp hstep
    exact step_refines hF hs

theorem Reachable.refines {m : Machine} {k : Kernel} (h : Reachable m k) :
    ∃ F, Refines k.links F := by
  obtain ⟨F₀, F, -, -, href⟩ := (kernel_simulates_forest m fun _ => True).reachable h
  exact ⟨F, href⟩

/-- Whatever the kernel does, only a process on top of its terminal can end. -/
theorem step_ends_top {m : Machine} {k k' : Kernel} {e : Event} {out : Outcome} {p : Pid}
    (h : Reachable m k) (hs : step m k e = some (k', out)) (hp : k.pid_array p = true) :
    k'.pid_array p = true ∨ ∃ t, k.running_pid t = some p := by
  obtain ⟨F, hF⟩ := h.refines
  obtain ⟨F', hstep, hF'⟩ := step_refines hF hs
  rcases hstep.mem_of_mem ((hF.stacked.used p).mp hp) with hmem | ⟨t, htop⟩
  · exact Or.inl ((hF'.stacked.used p).mpr hmem)
  · have hhead : k.running_pid t = (F.family.stack t).head? := (hF.stacked.chain t).head?
    exact Or.inr ⟨t, hhead.trans htop⟩

/-! ## No operation of the kernel's own gets stuck -/

/-- A terminal can always be displayed. -/
theorem launch_term_isSome (m : Machine) (t : TermId) (fr frShell : Frame) {k : Kernel}
    {F : Forest TermId Pid} (h : Refines k.links F) :
    ∃ r, launch_term m t fr frShell k = some r := by
  by_cases ht : t = k.curr_term
  · unfold launch_term
    rw [if_pos (show t = k.cli.curr_term from ht)]
    exact ⟨_, rfl⟩
  · cases hrun : k.running_pid t with
    | none =>
      obtain ⟨r, hex⟩ := execute_shell_ne_none m .kernel frShell (opening t k.cur_pid fr k)
      rw [launch_term_opening m ht hrun,
        show k.running_pid k.running_term = some k.cur_pid from h.cur, Option.bind_some, hex]
      exact ⟨_, rfl⟩
    | some p =>
      unfold launch_term
      dsimp only
      rw [if_neg (show ¬ t = k.cli.curr_term from ht), show k.cli.running_pid t = some p from hrun]
      exact ⟨_, rfl⟩

/-- The scheduler always finds a process. -/
theorem get_next_process_isSome {k : Kernel} {F : Forest TermId Pid} (h : Refines k.links F) :
    ∃ t p, get_next_process k = (t, some p) := by
  have hcur : k.running_pid k.running_term = some k.cur_pid := h.cur
  have hround : k.running_term + 1 + 1 + 1 = k.running_term := by
    generalize k.running_term = t
    revert t
    decide
  unfold get_next_process
  dsimp only
  by_cases h1 : k.running_pid (k.running_term + 1) = none
  · rw [if_neg (not_not.mpr h1)]
    by_cases h2 : k.running_pid (k.running_term + 1 + 1) = none
    · rw [if_neg (not_not.mpr h2), hround, hcur]
      exact ⟨_, _, rfl⟩
    · rw [if_pos h2]
      obtain ⟨p, hp⟩ := Option.ne_none_iff_exists'.mp h2
      rw [hp]
      exact ⟨_, _, rfl⟩
  · rw [if_pos h1]
    obtain ⟨p, hp⟩ := Option.ne_none_iff_exists'.mp h1
    rw [hp]
    exact ⟨_, _, rfl⟩

/-- A timer tick is always survived. -/
theorem tick_isSome (m : Machine) (fr : Frame) {k : Kernel} {F : Forest TermId Pid}
    (h : Refines k.links F) : ∃ k', pit_interrupt_handler m fr k = some k' := by
  have hcur : k.running_pid k.running_term = some k.cur_pid := h.cur
  obtain ⟨t, p, hnext⟩ := get_next_process_isSome h
  unfold pit_interrupt_handler
  by_cases hsome : k.cli.running_pid 1 ≠ none ∨ k.cli.running_pid 2 ≠ none
  · rw [if_pos hsome, show get_next_process k.cli = (t, some p) from hnext]
    dsimp only
    rw [Option.bind_eq_bind, Option.bind_some, schedule_eq (k := k.cli) (h.stacked.number t),
      show k.cli.running_pid k.cli.running_term = some k.cur_pid from hcur]
    exact ⟨_, rfl⟩
  · rw [if_neg hsome]
    exact ⟨_, rfl⟩

/-- `halt` finds its target, except for Ctrl+C on a terminal without a process. -/
theorem halt_target_isSome (status : UInt8) (fr : Frame) {k : Kernel} {F : Forest TermId Pid}
    (h : Refines k.links F) (hdisplay : status = 1 → k.running_pid k.curr_term ≠ none) :
    ∃ victim t k₁, halt_target status fr k.cli = some (victim, t, k₁) := by
  have hcur : k.running_pid k.running_term = some k.cur_pid := h.cur
  unfold halt_target
  by_cases hs : status = 1
  · obtain ⟨v, hv⟩ := Option.ne_none_iff_exists'.mp (hdisplay hs)
    rw [if_pos hs, show k.cli.running_pid k.cli.curr_term = some v from hv,
      Option.bind_eq_bind, Option.bind_some]
    by_cases hterm : k.cli.running_term ≠ k.cli.curr_term
    · rw [if_pos hterm, show k.cli.running_pid k.cli.running_term = some k.cur_pid from hcur]
      exact ⟨_, _, _, rfl⟩
    · rw [if_neg hterm]
      exact ⟨_, _, _, rfl⟩
  · rw [if_neg hs]
    dsimp only
    split_ifs
    · exact ⟨_, _, _, rfl⟩
    · exact ⟨_, _, _, rfl⟩

/-- `halt` ends unless one of its `close` calls follows a null pointer: the slot it frees is
there for the shell that replaces a terminal's last process. -/
theorem halt_func_isSome (m : Machine) {status : UInt8} {fr : Frame} (frShell : Frame)
    {k k₁ : Kernel} {victim : Pid} {t : TermId}
    (htarget : halt_target status fr k.cli = some (victim, t, k₁)) (hclose : Closable victim k₁) :
    ∃ r, halt_func m status fr frShell k = some r := by
  rw [halt_func_eq m htarget hclose]
  cases (k₁.pcb victim).parent with
  | some parent => exact ⟨_, rfl⟩
  | none =>
    have hfree : (((released victim k₁).modTerm t fun i => { i with running_pid := none }).pid_array
        (k₁.pcb victim).pid) = false := by
      show Function.update k₁.pid_array (k₁.pcb victim).pid false (k₁.pcb victim).pid = false
      exact Function.update_self ..
    obtain ⟨k', e, hex⟩ := execute_shell_isSome m .kernel frShell hfree
    dsimp only
    rw [hex]
    exact ⟨_, rfl⟩

/-- After `launch_term`, terminal `t` is on display. -/
structure Displays (m : Machine) (t : TermId) (frShell : Frame) (k k' : Kernel)
    (out : Outcome) : Prop where
  display : k'.curr_term = t
  /-- A terminal without a process gets its shell while a process number is left for it. -/
  shell : t ≠ k.curr_term → k.running_pid t = none → (∃ p, k.pid_array p = false) →
    ∃ p x, k.pid_array p = false ∧ check_command m.img m.shell frShell k.fs = .accept x ∧
      k'.links = k.links.attach t p ∧ out = .enterUser x.entry_point
  /-- Otherwise the processes are as before: with a full process table the terminal is displayed
  without one. -/
  same : t = k.curr_term ∨ k.running_pid t ≠ none ∨ (∀ p, k.pid_array p = true) →
    k'.links = k.links ∧ out = .ret 0

theorem launch_term_displays {m : Machine} {t : TermId} {fr frShell : Frame} {k k' : Kernel}
    {out : Outcome} (h : launch_term m t fr frShell k = some (k', out)) :
    Displays m t frShell k k' out := by
  rcases launch_term_cases h with ⟨ht, rfl, rfl⟩ | ⟨ht, hnone, old, -, r, hex, hout⟩ |
    ⟨-, ⟨q, hq⟩, rfl, rfl⟩
  · exact ⟨ht.symm, fun hne => absurd ht hne, fun _ => ⟨rfl, rfl⟩⟩
  · have hopen := links_opening t old fr k
    obtain ⟨x₀, haccept, -⟩ := check_command_shell m frShell k.fs
    rcases execute_func_cases hex with ⟨fs, hrefuse, -, -⟩ | ⟨x, -, hall, hr, console, -, rfl⟩ |
      ⟨x, p, hcheck, hfree, -, hr, frame, console, -, rfl⟩
    · -- the image has a shell
      rw [show check_command m.img m.shell frShell k.fs = .refuse fs from hrefuse] at haccept
      cases haccept
    · -- no process number is left: the terminal is on display all the same
      have hret : out = .ret 0 := by
        rcases hout with ⟨e, he, -⟩ | ⟨-, hret⟩
        · rw [hr] at he
          cases he
        · exact hret
      refine ⟨rfl, fun _ _ ⟨p, hfree⟩ => ?_, fun _ => ⟨hopen, hret⟩⟩
      rw [show k.pid_array p = true from hall p] at hfree
      cases hfree
    · have henter : out = .enterUser x.entry_point := by
        rcases hout with ⟨e, he, henter⟩ | ⟨hnot, -⟩
        · rw [henter, ← he, hr]
        · exact absurd hr (hnot _)
      have hlinks : (started .kernel x p frShell (opening t old fr k) frame console).links =
          k.links.attach t p := by
        rw [links_started, hopen]
        rfl
      refine ⟨rfl, fun _ _ _ => ⟨p, x, hfree, hcheck, hlinks, henter⟩, ?_⟩
      rintro (hdisplay | hsome | hall)
      · exact absurd hdisplay ht
      · exact absurd hnone hsome
      · have hused := hall p
        rw [show k.pid_array p = false from hfree] at hused
        cases hused
  · refine ⟨rfl, fun _ hnone => ?_, fun _ => ⟨links_congr rfl rfl rfl (fun _ => ⟨rfl, rfl, rfl⟩)
      fun _ => ⟨rfl, rfl⟩, rfl⟩⟩
    rw [hq] at hnone
    cases hnone

/-- Every operation leaves the processor to a process on top of its terminal. -/
theorem step_runs_top {m : Machine} {k k' : Kernel} {e : Event} {out : Outcome}
    {F : Forest TermId Pid} (h : Refines k.links F) (hs : step m k e = some (k', out)) :
    k'.running_pid k'.running_term = some k'.cur_pid := by
  obtain ⟨F', -, hF'⟩ := step_refines h hs
  exact hF'.cur

/-- Nothing but the console is open in the first shell. -/
theorem sampleKernel_closable {victim : Pid} {t : TermId} {k₁ : Kernel}
    (h : halt_target 0 sampleFrame sampleKernel.cli = some (victim, t, k₁)) :
    Closable victim k₁ := by
  cases h
  have hfree : ∀ fd, ¬ CloseFaults sampleKernel fd := by decide +kernel
  exact fun fd _ => hfree fd

end Kernel391
