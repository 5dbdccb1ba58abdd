import Kernel391.Lib.TransitionSystem
import Mathlib.Data.BitVec
import Mathlib.Logic.Function.Basic

/-!
# Returning from a system call (`interrupt_handler.S`)

The dispatcher at the grain of single instructions, with the timer able to take the
processor away between any two of them. A handler's result travels from `eax` to the one
word `ret_val`, and from there back to `eax` once the caller's registers have been popped.
Gate 0x80 is a trap gate, so all of this runs with interrupts enabled.

Every process has its own kernel stack and, while it does not run, its own registers and
flags there; `ret_val` is shared. The timer uses it as well: `schedule` maps the video page
through the wrapper of `vidmap`, whose result of 0 takes the same way. Each phase that
carries a result also carries the value the handler computed, which no step reads before
`iret` compares the two.
-/

namespace Kernel391

open TransitionSystem

/-- Registers are 32 bits wide. -/
abbrev Reg := BitVec 32

/-! ## The gates (`idt_init.c`) -/

/-- `reserved3` as `initialize_IDT` leaves it: exceptions and system calls use trap gates. -/
def reserved3 (vec : ℕ) : Bool := vec < 32 || vec == 0x80

/-- The interrupt flag behind a gate: a trap gate leaves it, an interrupt gate clears it. -/
def intfBehindGate (vec : ℕ) (intf : Bool) : Bool := reserved3 vec && intf

/-! ## One process in the dispatcher -/

inductive Phase where
  /-- No process. -/
  | idle
  /-- In its program. -/
  | user (eax : Reg)
  /-- At `interrupt_handler`, with the system call number. -/
  | entered (eax : Reg)
  /-- In the handler. -/
  | handler (eax : Reg)
  /-- In the handler of `execute`, until the program started ends. -/
  | waiting
  /-- The handler has returned; `eax` holds its value. -/
  | returned (value : Reg)
  /-- After the store to `ret_val`. -/
  | stored (value : Reg)
  /-- After `popfl` and `popal`. -/
  | restored (value : Reg)
  /-- After `ret_val` has been loaded. -/
  | loaded (value eax : Reg)
deriving DecidableEq

/-- The result that lies in `ret_val` for a process in this phase. -/
def Phase.pending : Phase → Option Reg
  | .stored v => some v
  | .restored v => some v
  | _ => none

/-- The phases the scheduler can switch to. -/
def Phase.Runnable (ph : Phase) : Prop := ph ≠ .idle ∧ ph ≠ .waiting

instance (ph : Phase) : Decidable ph.Runnable := by unfold Phase.Runnable; infer_instance

structure Task where
  phase : Phase
  /-- The interrupt flag while the process runs. -/
  intf : Bool
  /-- The flag `pushfl` saved. -/
  saved : Bool
  /-- The flag in the frame `iret` returns through. -/
  frame : Bool
deriving DecidableEq

/-- A system call that has returned to its program. -/
structure Completed (P : Type) where
  caller : P
  computed : Reg
  received : Reg

structure Cpu (P : Type) where
  task : P → Task
  running : P
  /-- Who called `execute` to start a process. -/
  parent : P → Option P
  ret_val : Reg
  completed : List (Completed P)

inductive DispatchEvent (P : Type) where
  /-- The program executes `int $0x80`. -/
  | int80 (eax : Reg)
  /-- The comparison of the system call number with 1 and 10. -/
  | check
  /-- The handler sets or clears the interrupt flag. -/
  | setIntf (intf : Bool)
  /-- The handler returns. -/
  | ret (value : Reg)
  /-- The handler of `execute` starts a program. -/
  | execute (child : P)
  /-- The handler of `halt` returns to the `execute` call of the parent. -/
  | halt (status : Reg)
  /-- The handler of `halt` starts a new shell for a process without a parent. -/
  | restart (shell : P)
  | store
  | restore
  | load
  | iret
  /-- The timer gives the processor to another process (`schedule`). -/
  | tick (next : P)

section
variable {P : Type} [DecidableEq P]

namespace Cpu

def setTask (c : Cpu P) (p : P) (t : Task) : Cpu P :=
  { c with task := Function.update c.task p t }

/-- Change the phase of the running process. -/
def setPhase (c : Cpu P) (ph : Phase) : Cpu P :=
  c.setTask c.running { c.task c.running with phase := ph }

/-- A program at its first instruction. -/
def startTask (c : Cpu P) (p : P) : Cpu P :=
  { c.setTask p { phase := .user 0, intf := true, saved := true, frame := true } with
    running := p }

/-- One step of the running process, or a timer tick. -/
def step (c : Cpu P) : DispatchEvent P → Option (Cpu P)
  | .int80 eax =>
    match (c.task c.running).phase with
    | .user _ =>
      let intf := (c.task c.running).intf
      some (c.setTask c.running
        { phase := .entered eax, intf := intfBehindGate 0x80 intf
          saved := intfBehindGate 0x80 intf, frame := intf })
    | _ => none
  | .check =>
    match (c.task c.running).phase with
    | .entered eax =>
      if eax.toInt < 1 ∨ eax.toInt > 10 then
        some { c.setPhase (.stored (-1)) with ret_val := -1 }
      else some (c.setPhase (.handler eax))
    | _ => none
  | .setIntf intf =>
    match (c.task c.running).phase with
    | .handler _ => some (c.setTask c.running { c.task c.running with intf := intf })
    | _ => none
  | .ret value =>
    match (c.task c.running).phase with
    | .handler _ => some (c.setPhase (.returned value))
    | _ => none
  | .execute child =>
    if (c.task c.running).phase = .handler 2 ∧ (c.task child).phase = .idle then
      some { (c.setPhase .waiting).startTask child with
        parent := Function.update c.parent child (some c.running) }
    else none
  | .halt status =>
    if (c.task c.running).phase = .handler 1 then
      match c.parent c.running with
      | some p =>
        if (c.task p).phase = .waiting then
          let c := c.setPhase .idle
          some { c.setTask p { c.task p with phase := .returned status, intf := true } with
            running := p }
        else none
      | none => none
    else none
  | .restart shell =>
    if (c.task c.running).phase = .handler 1 ∧ c.parent c.running = none ∧
        ((c.task shell).phase = .idle ∨ shell = c.running) then
      some { (c.setPhase .idle).startTask shell with
        parent := Function.update c.parent shell none }
    else none
  | .store =>
    match (c.task c.running).phase with
    | .returned v => some { c.setPhase (.stored v) with ret_val := v }
    | _ => none
  | .restore =>
    match (c.task c.running).phase with
    | .stored v =>
      let t := c.task c.running
      some (c.setTask c.running { t with phase := .restored v, intf := t.saved })
    | _ => none
  | .load =>
    match (c.task c.running).phase with
    | .restored v => some (c.setPhase (.loaded v c.ret_val))
    | _ => none
  | .iret =>
    match (c.task c.running).phase with
    | .loaded v eax =>
      let t := c.task c.running
      some { c.setTask c.running { t with phase := .user eax, intf := t.frame } with
        completed := { caller := c.running, computed := v, received := eax } :: c.completed }
    | _ => none
  | .tick next =>
    -- schedule's own int $0x80 for vidmap, with interrupts off, leaves its result here
    if (c.task c.running).intf = true ∧ (c.task next).phase.Runnable then
      some { c with running := next, ret_val := 0 }
    else none

end Cpu

/-- Any number of programs, none of them in the kernel. -/
def dispatcher (P : Type) [DecidableEq P] : System (Cpu P) (DispatchEvent P) where
  init c := c.completed = [] ∧ ∀ p, (c.task p).phase = .idle ∨
    ∃ eax, (c.task p).phase = .user eax
  step := Cpu.step

/-! ## The shared word -/

/-- A tick takes the processor from a process only while it has no result to load, or a result
that is the timer's own. -/
def KeepsResults (c : Cpu P) : DispatchEvent P → Prop
  | .tick _ => (c.task c.running).phase.pending = none ∨
      (c.task c.running).phase.pending = some 0
  | _ => True

instance (c : Cpu P) (e : DispatchEvent P) : Decidable (KeepsResults c e) := by
  cases e <;> unfold KeepsResults <;> infer_instance

/-- Results that are still on their way are right so far: a process that has been put aside will
find what the timer leaves. -/
structure ResultsSafe (c : Cpu P) : Prop where
  running : ∀ u, (c.task c.running).phase.pending = some u → c.ret_val = u
  aside : ∀ p u, p ≠ c.running → (c.task p).phase.pending = some u → u = 0
  loaded : ∀ p v w, (c.task p).phase = .loaded v w → w = v
  completed : ∀ r ∈ c.completed, r.received = r.computed

/-- A phase without a result in `ret_val` or loaded from it. -/
def Phase.Clean (ph : Phase) : Prop := ph.pending = none ∧ ∀ v w, ph ≠ .loaded v w

/-! ## What one step does -/

section
variable (c : Cpu P) (p q : P) (t : Task) (ph : Phase)

@[simp] theorem setTask_self : (c.setTask p t).task p = t := Function.update_self ..

theorem setTask_of_ne (h : q ≠ p) : (c.setTask p t).task q = c.task q :=
  Function.update_of_ne h ..

@[simp] theorem setPhase_self : ((c.setPhase ph).task c.running).phase = ph := by
  rw [Cpu.setPhase, setTask_self]

end

/-- Processes move on without touching `ret_val`. -/
structure Moves (c c' : Cpu P) : Prop where
  phase : ∀ p, (c'.task p).phase = (c.task p).phase ∨ (c'.task p).phase.Clean
  running : c'.running = c.running ∨
    (c'.task c.running).phase.Clean ∧ (c'.task c'.running).phase.Clean
  ret_val : c'.ret_val = c.ret_val
  completed : c'.completed = c.completed

/-- One process moves to a phase without a result. -/
theorem setTask_moves (c : Cpu P) (p : P) {t : Task} (ht : t.phase.Clean) :
    Moves c (c.setTask p t) where
  phase q := by
    by_cases hq : q = p
    · rw [hq, setTask_self]
      exact Or.inr ht
    · rw [setTask_of_ne _ _ _ _ hq]
      exact Or.inl rfl
  running := Or.inl rfl
  ret_val := rfl
  completed := rfl

/-- The running process leaves its phase, and gives way to another process. -/
theorem leave_moves (c : Cpu P) {ph : Phase} (hph : ph.Clean) {p : P}
    {t : Task} {parent : P → Option P} (ht : t.phase.Clean) :
    Moves c { (c.setPhase ph).setTask p t with running := p, parent := parent } := by
  have hleft : Moves c (c.setPhase ph) := setTask_moves c c.running hph
  have hself : ((c.setPhase ph).task c.running).phase.Clean := by
    rw [setPhase_self]
    exact hph
  have hphase : ∀ r, (((c.setPhase ph).setTask p t).task r).phase.Clean ∨
      ((c.setPhase ph).setTask p t).task r = (c.setPhase ph).task r := by
    intro r
    by_cases hr : r = p
    · rw [hr, setTask_self]
      exact Or.inl ht
    · exact Or.inr (setTask_of_ne _ _ _ _ hr)
  constructor
  · intro r
    rcases hphase r with hclean | hsame
    · exact Or.inr hclean
    · show (((c.setPhase ph).setTask p t).task r).phase = _ ∨ _
      rw [hsame]
      exact hleft.phase r
  · refine Or.inr ⟨?_, ?_⟩
    · show (((c.setPhase ph).setTask p t).task c.running).phase.Clean
      rcases hphase c.running with hclean | hsame
      · exact hclean
      · rw [hsame]
        exact hself
    · show (((c.setPhase ph).setTask p t).task p).phase.Clean
      rw [setTask_self]
      exact ht
  · exact hleft.ret_val
  · exact hleft.completed

/-- Every way a step ends: a result is stored, carried on, loaded or returned, the timer
leaves its own result, or the step has nothing to do with `ret_val`. -/
theorem step_results {c c' : Cpu P} {e : DispatchEvent P} (hs : c.step e = some c') :
    Moves c c' ∨
    (∃ next, e = .tick next ∧ c' = { c with running := next, ret_val := 0 }) ∨
    (∃ v, c' = { c.setPhase (.stored v) with ret_val := v }) ∨
    (∃ v intf, (c.task c.running).phase = .stored v ∧
      c' = c.setTask c.running { c.task c.running with phase := .restored v, intf := intf }) ∨
    (∃ v, (c.task c.running).phase = .restored v ∧ c' = c.setPhase (.loaded v c.ret_val)) ∨
    ∃ v eax intf, (c.task c.running).phase = .loaded v eax ∧
      c' = { c.setTask c.running { c.task c.running with phase := .user eax, intf := intf } with
        completed := { caller := c.running, computed := v, received := eax } :: c.completed } := by
  cases e with
  | int80 eax =>
    unfold Cpu.step at hs
    dsimp only at hs
    split at hs
    · rw [Option.some.injEq] at hs
      exact hs ▸ Or.inl (setTask_moves c _ ⟨rfl, by simp⟩)
    · cases hs
  | check =>
    unfold Cpu.step at hs
    dsimp only at hs
    split at hs
    -- a call number out of range is answered with -1 here
    · next eax heq =>
      by_cases hnum : eax.toInt < 1 ∨ eax.toInt > 10
      · rw [if_pos hnum, Option.some.injEq] at hs
        exact Or.inr (Or.inr (Or.inl ⟨-1, hs.symm⟩))
      · rw [if_neg hnum, Option.some.injEq] at hs
        exact hs ▸ Or.inl (setTask_moves c _ ⟨rfl, by simp⟩)
    · cases hs
  | setIntf intf =>
    unfold Cpu.step at hs
    dsimp only at hs
    split at hs
    · next eax heq =>
      rw [Option.some.injEq] at hs
      refine hs ▸ Or.inl (setTask_moves c _ ?_)
      rw [heq]
      exact ⟨rfl, by simp⟩
    · cases hs
  | ret value =>
    unfold Cpu.step at hs
    dsimp only at hs
    split at hs
    · rw [Option.some.injEq] at hs
      exact hs ▸ Or.inl (setTask_moves c _ ⟨rfl, by simp⟩)
    · cases hs
  | execute child =>
    unfold Cpu.step at hs
    dsimp only at hs
    split_ifs at hs
    rw [Option.some.injEq] at hs
    exact hs ▸ Or.inl (leave_moves c ⟨rfl, by simp⟩ ⟨rfl, by simp⟩)
  | halt status =>
    unfold Cpu.step at hs
    dsimp only at hs
    split_ifs at hs
    split at hs
    · split_ifs at hs
      rw [Option.some.injEq] at hs
      exact hs ▸ Or.inl (leave_moves c ⟨rfl, by simp⟩ ⟨rfl, by simp⟩)
    · cases hs
  | restart shell =>
    unfold Cpu.step at hs
    dsimp only at hs
    split_ifs at hs
    rw [Option.some.injEq] at hs
    exact hs ▸ Or.inl (leave_moves c ⟨rfl, by simp⟩ ⟨rfl, by simp⟩)
  | store =>
    unfold Cpu.step at hs
    dsimp only at hs
    split at hs
    · rw [Option.some.injEq] at hs
      exact Or.inr (Or.inr (Or.inl ⟨_, hs.symm⟩))
    · cases hs
  | restore =>
    unfold Cpu.step at hs
    dsimp only at hs
    split at hs
    · next v heq =>
      rw [Option.some.injEq] at hs
      exact Or.inr (Or.inr (Or.inr (Or.inl ⟨v, _, heq, hs.symm⟩)))
    · cases hs
  | load =>
    unfold Cpu.step at hs
    dsimp only at hs
    split at hs
    · next v heq =>
      rw [Option.some.injEq] at hs
      exact Or.inr (Or.inr (Or.inr (Or.inr (Or.inl ⟨v, heq, hs.symm⟩))))
    · cases hs
  | iret =>
    unfold Cpu.step at hs
    dsimp only at hs
    split at hs
    · next v eax heq =>
      rw [Option.some.injEq] at hs
      exact Or.inr (Or.inr (Or.inr (Or.inr (Or.inr ⟨v, eax, _, heq, hs.symm⟩))))
    · cases hs
  | tick next =>
    unfold Cpu.step at hs
    dsimp only at hs
    split_ifs at hs
    rw [Option.some.injEq] at hs
    exact Or.inr (Or.inl ⟨next, rfl, hs.symm⟩)

/-! ## Runs -/

namespace ResultsSafe

variable {c c' : Cpu P}

omit [DecidableEq P] in
theorem moves (h : ResultsSafe c) (hm : Moves c c') : ResultsSafe c' := by
  constructor
  · intro u hu
    rw [hm.ret_val]
    -- only a tick gives the processor to a process with a result on its way
    rcases hm.running with hrun | ⟨-, hclean⟩
    · rw [hrun] at hu
      rcases hm.phase c.running with hsame | hclean
      · rw [hsame] at hu
        exact h.running u hu
      · rw [hclean.1] at hu
        cases hu
    · rw [hclean.1] at hu
      cases hu
  · intro p u hp hu
    rcases hm.phase p with hsame | hclean
    · by_cases hpc : p = c.running
      · -- the process that was running has been left, so it has no result waiting
        rcases hm.running with hrun | ⟨hclean, -⟩
        · exact absurd (hpc.trans hrun.symm) hp
        · rw [hpc, hclean.1] at hu
          cases hu
      · rw [hsame] at hu
        exact h.aside p u hpc hu
    · rw [hclean.1] at hu
      cases hu
  · intro p v w hp
    rcases hm.phase p with hsame | hclean
    · rw [hsame] at hp
      exact h.loaded p v w hp
    · exact absurd hp (hclean.2 v w)
  · rw [hm.completed]
    exact h.completed

/-- The running process moves on, with a result that is right. -/
theorem setRunning (h : ResultsSafe c) (t : Task) (r : Reg)
    (hpending : ∀ u, t.phase.pending = some u → r = u)
    (hloaded : ∀ v w, t.phase = .loaded v w → w = v) :
    ResultsSafe { c.setTask c.running t with ret_val := r } := by
  constructor
  · intro u hu
    replace hu : ((c.setTask c.running t).task c.running).phase.pending = some u := hu
    rw [setTask_self] at hu
    exact hpending u hu
  · intro q u hq hu
    replace hq : q ≠ c.running := hq
    replace hu : ((c.setTask c.running t).task q).phase.pending = some u := hu
    rw [setTask_of_ne _ _ _ _ hq] at hu
    exact h.aside q u hq hu
  · intro q v w hq
    replace hq : ((c.setTask c.running t).task q).phase = .loaded v w := hq
    by_cases hqc : q = c.running
    · rw [hqc, setTask_self] at hq
      exact hloaded v w hq
    · rw [setTask_of_ne _ _ _ _ hqc] at hq
      exact h.loaded q v w hq
  · exact h.completed

omit [DecidableEq P] in
/-- A tick leaves 0 in `ret_val` for whoever comes next: it finds its own result there. -/
theorem tick (h : ResultsSafe c) (next : P)
    (hkeep : KeepsResults c (.tick next)) :
    ResultsSafe { c with running := next, ret_val := 0 } := by
  have hzero : ∀ p u, (c.task p).phase.pending = some u → u = 0 := by
    intro p u hu
    by_cases hp : p = c.running
    · rw [hp] at hu
      rcases hkeep with hnone | hzero
      · rw [hnone] at hu
        cases hu
      · rw [hzero] at hu
        exact (Option.some.inj hu).symm
    · exact h.aside p u hp hu
  exact ⟨fun u hu => (hzero next u hu).symm, fun p u _ hu => hzero p u hu, h.loaded,
    h.completed⟩

/-- Every step that loses no result keeps all of them right. -/
theorem step {e : DispatchEvent P} (h : ResultsSafe c) (hok : KeepsResults c e)
    (hs : c.step e = some c') : ResultsSafe c' := by
  rcases step_results hs with hm | ⟨next, rfl, rfl⟩ | ⟨v, rfl⟩ | ⟨v, intf, heq, rfl⟩ |
    ⟨v, heq, rfl⟩ | ⟨v, eax, intf, heq, rfl⟩
  · exact h.moves hm
  · exact h.tick next hok
  -- a store by the running process: those put aside do not look at `ret_val` before the next tick
  · refine h.setRunning _ v (fun u hu => ?_) (by simp)
    exact Option.some.inj hu
  · have hret : c.ret_val = v := h.running v (by rw [heq]; rfl)
    refine h.setRunning _ c.ret_val (fun u hu => ?_) (by simp)
    exact hret.trans (Option.some.inj hu)
  · have hret : c.ret_val = v := h.running v (by rw [heq]; rfl)
    refine h.setRunning _ c.ret_val (fun u hu => ?_) fun u w huw => ?_
    · cases hu
    · cases huw
      exact hret
  · have heax : eax = v := h.loaded c.running v eax heq
    have huser := h.moves (setTask_moves c c.running
      (t := { c.task c.running with phase := .user eax, intf := intf }) ⟨rfl, by simp⟩)
    refine ⟨huser.running, huser.aside, huser.loaded, fun r hr => ?_⟩
    rcases List.mem_cons.mp hr with rfl | hr
    · exact heax
    · exact h.completed r hr

end ResultsSafe

/-- Programs that are not in the kernel have no results on their way. -/
theorem init_clean {c : Cpu P} (h : (dispatcher P).init c) (p : P) : (c.task p).phase.Clean := by
  rcases h.2 p with hp | ⟨eax, hp⟩
  · rw [hp]
    exact ⟨rfl, by simp⟩
  · rw [hp]
    exact ⟨rfl, by simp⟩

theorem resultsSafe_init {c : Cpu P} (h : (dispatcher P).init c) : ResultsSafe c := by
  have hnone : ∀ p u, (c.task p).phase.pending ≠ some u := by
    intro p u hu
    rw [(init_clean h p).1] at hu
    cases hu
  refine ⟨fun u hu => absurd hu (hnone _ u), fun p u _ hu => absurd hu (hnone p u),
    fun p v w hp => absurd hp ((init_clean h p).2 v w), ?_⟩
  rw [h.1]
  simp

/-- In a run in which no tick comes between the store of a result other than 0 to `ret_val` and
its load, every system call returns the value its handler computed. -/
theorem results_own {c : Cpu P} (h : (dispatcher P).ReachableWhere KeepsResults c) :
    ∀ r ∈ c.completed, r.received = r.computed := by
  have hsafe : ResultsSafe c :=
    h.invariant (fun _ h0 => resultsSafe_init h0) fun _ _ _ _ hc hok hs => hc.step hok hs
  exact hsafe.completed

end

/-! ## Two processes -/

/-- Two programs, neither in the kernel. -/
def twoPrograms : Cpu Bool where
  task _ := { phase := .user 0, intf := true, saved := true, frame := true }
  running := false
  parent _ := none
  ret_val := 0
  completed := []

theorem twoPrograms_init : (dispatcher Bool).init twoPrograms :=
  ⟨rfl, fun _ => Or.inr ⟨0, rfl⟩⟩

/-- The first program's `write` returns 5, and the second one runs before and after. -/
theorem results_own_write : ∃ c, (dispatcher Bool).ReachableWhere KeepsResults c ∧
    c.completed.map Completed.received = [5] ∧
    ∀ r ∈ c.completed, r.received = r.computed := by
  have hrun : (((dispatcher Bool).restrict KeepsResults).runFrom twoPrograms
      [.tick true, .int80 4, .tick false, .int80 4, .check, .ret 5, .store, .restore, .load,
        .tick true, .check, .tick false, .iret]).any
      (fun c => decide (c.completed.map Completed.received = [5])) = true := by
    decide +kernel
  obtain ⟨c, hreach, hfive⟩ := System.ReachableWhere.exists_of_run twoPrograms_init _ hrun
  exact ⟨c, hreach, hfive, results_own hreach⟩

/-- The first program's `write` returns 5, which is stored; a tick gives the processor to the
second program and another one takes it back; the first one then loads the timer's 0. -/
theorem results_mixed_up : ¬ ∀ c, (dispatcher Bool).Reachable c →
    ∀ r ∈ c.completed, r.received = r.computed := by
  intro hall
  have hrun : ((dispatcher Bool).runFrom twoPrograms
      [.int80 4, .check, .ret 5, .store, .tick true, .tick false, .restore, .load, .iret]).any
      (fun c => decide (∃ r ∈ c.completed, r.received ≠ r.computed)) = true := by
    decide +kernel
  obtain ⟨c, hreach, r, hr, hne⟩ := System.Reachable.exists_of_run twoPrograms_init _ hrun
  exact hne (hall c hreach r hr)

end Kernel391
