import Kernel391.Lib.PointerChain

/-!
# What the process table is for

The abstract model of processes and terminals. Every terminal has a stack of processes:
the program the user sees on top, the shell that started it below, down to the terminal's
first shell. One terminal is running, and it has a process. That is all the state there
is; parent pointers, process numbers and the table of used slots are the kernel's way of
storing it.

A process starts by being pushed and ends by being popped. When the last process of a
terminal ends, a new one takes its place at once, though not always on the same terminal.
-/

namespace Kernel391

open PointerChain

variable {ι α : Type*}

/-- Stacks of processes, and the terminal that has the processor. -/
structure Forest (ι α : Type*) where
  family : Stacks ι α
  running : ι
  busy : family.stack running ≠ []

namespace Forest

variable (F : Forest ι α)

variable [DecidableEq ι]

/-- Start process `a` on terminal `i`. -/
def spawn (i : ι) (a : α) (ha : ¬ F.family.Mem a) : Forest ι α where
  family := F.family.push i a ha
  running := i
  busy := by
    rw [Stacks.push_stack_self]
    exact List.cons_ne_nil _ _

/-- End the top process of terminal `i`, which goes on with the one below. -/
def finish (i : ι) (h : (F.family.stack i).tail ≠ []) : Forest ι α where
  family := F.family.pop i
  running := i
  busy := by
    rw [Stacks.pop_stack_self]
    exact h

/-- End the last process of terminal `i` and start `a` on terminal `j`. -/
def restart (i j : ι) (a : α) (ha : ¬ (F.family.pop i).Mem a) : Forest ι α where
  family := (F.family.pop i).push j a ha
  running := j
  busy := by
    rw [Stacks.push_stack_self]
    exact List.cons_ne_nil _ _

/-- Give the processor to terminal `i`. -/
def switch (i : ι) (h : F.family.stack i ≠ []) : Forest ι α := ⟨F.family, i, h⟩

/-- One step of the abstract model. -/
inductive Step : Forest ι α → Forest ι α → Prop
  | stay (F : Forest ι α) : Step F F
  | spawn (F : Forest ι α) (i : ι) (a : α) (ha : ¬ F.family.Mem a) : Step F (F.spawn i a ha)
  | finish (F : Forest ι α) (i : ι) (h : (F.family.stack i).tail ≠ []) : Step F (F.finish i h)
  | restart (F : Forest ι α) (i j : ι) (a b : α) (hi : F.family.stack i = [b])
      (ha : ¬ (F.family.pop i).Mem a) : Step F (F.restart i j a ha)
  | switch (F : Forest ι α) (i : ι) (h : F.family.stack i ≠ []) : Step F (F.switch i h)

/-- The first process alone. -/
def single (i : ι) (a : α) : Forest ι α where
  family := (Stacks.empty : Stacks ι α).push i a fun ⟨_, h⟩ => List.not_mem_nil h
  running := i
  busy := by
    rw [Stacks.push_stack_self]
    exact List.cons_ne_nil _ _

/-- No step removes more than one process, and then it is the top of a stack. -/
theorem Step.mem_of_mem {F F' : Forest ι α} (h : Step F F') {a : α} (ha : F.family.Mem a) :
    F'.family.Mem a ∨ ∃ i, (F.family.stack i).head? = some a := by
  cases h with
  | stay => exact Or.inl ha
  | spawn i b hb =>
    refine Or.inl ?_
    show (F.family.push i b hb).Mem a
    rw [Stacks.mem_push]
    exact Or.inr ha
  | finish i hi =>
    cases hstack : F.family.stack i with
    | nil => simp [hstack] at hi
    | cons b l =>
      by_cases hab : a = b
      · refine Or.inr ⟨i, ?_⟩
        rw [hstack, hab]
        rfl
      · refine Or.inl ?_
        show (F.family.pop i).Mem a
        rw [Stacks.mem_pop hstack]
        exact ⟨hab, ha⟩
  | restart i j b c hi hb =>
    by_cases hac : a = c
    · refine Or.inr ⟨i, ?_⟩
      rw [hi, hac]
      rfl
    · refine Or.inl ?_
      show ((F.family.pop i).push j b hb).Mem a
      rw [Stacks.mem_push, Stacks.mem_pop hi]
      exact Or.inr ⟨hac, ha⟩
  | switch i hi => exact Or.inl ha

end Forest
end Kernel391
