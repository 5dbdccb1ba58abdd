import Mathlib.Data.List.Nodup
import Mathlib.Logic.Function.Basic
import Mathlib.Tactic.Common

/-!
# Chains through a pointer map, and families of disjoint stacks

A linked structure in memory is a partial map `next : α → Option α` from nodes to nodes,
entered at some pointer. `IsChain next s l` says that following `next` from `s` visits
exactly the nodes of `l`, in order, and then stops at the null pointer.

* A chain is determined by its start (`IsChain.unique`), so it never visits a node twice
  (`IsChain.nodup`): a pointer structure that is a chain is finite and acyclic.
* A chain looks only at its own nodes (`IsChain.congr`), which is the frame rule: stores
  to other nodes leave it alone. `IsChain.push` and `IsChain.pop` are its two updates.

`Stacks ι α` is the abstract value of a family of such chains: one list per index, no
element twice. Its fields carry the disjointness, so a family that shares a node cannot
be built.
-/

namespace PointerChain

variable {α ι : Type*}

/-! ## Chains -/

/-- Following `next` from the pointer `s` visits exactly `l` and then stops. -/
def IsChain (next : α → Option α) : Option α → List α → Prop
  | s, [] => s = none
  | s, a :: l => s = some a ∧ IsChain next (next a) l

namespace IsChain

variable {next next' : α → Option α} {s : Option α} {a : α} {l l' : List α}

@[simp] theorem nil_iff : IsChain next s [] ↔ s = none := Iff.rfl

@[simp] theorem cons_iff : IsChain next s (a :: l) ↔ s = some a ∧ IsChain next (next a) l :=
  Iff.rfl

/-- The pointer a chain is entered at is its first node, if it has one. -/
theorem head? (h : IsChain next s l) : s = l.head? := by
  cases l with
  | nil => exact h
  | cons a l => exact h.1

/-- A chain is determined by where it is entered. -/
theorem unique (h : IsChain next s l) (h' : IsChain next s l') : l = l' := by
  induction l generalizing s l' with
  | nil =>
    cases l' with
    | nil => rfl
    | cons b l' => exact absurd (h.symm.trans h'.1) (by simp)
  | cons a l ih =>
    cases l' with
    | nil => exact absurd (h'.symm.trans h.1) (by simp)
    | cons b l' =>
      have hab : a = b := Option.some.inj (h.1.symm.trans h'.1)
      subst hab
      rw [ih h.2 h'.2]

/-- From any node of a chain the rest of it is a chain again. -/
theorem of_mem (h : IsChain next s l) (ha : a ∈ l) :
    ∃ l₁ l₂, l = l₁ ++ a :: l₂ ∧ IsChain next (some a) (a :: l₂) := by
  induction l generalizing s with
  | nil => simp at ha
  | cons b l ih =>
    rcases List.mem_cons.mp ha with rfl | hmem
    · exact ⟨[], l, rfl, rfl, h.2⟩
    · obtain ⟨l₁, l₂, rfl, hc⟩ := ih h.2 hmem
      exact ⟨b :: l₁, l₂, rfl, hc⟩

/-- A finite chain visits no node twice: from a second visit on it would have to repeat
itself and never end. -/
theorem nodup (h : IsChain next s l) : l.Nodup := by
  induction l generalizing s with
  | nil => exact List.nodup_nil
  | cons a l ih =>
    refine List.nodup_cons.mpr ⟨fun ha => ?_, ih h.2⟩
    obtain ⟨l₁, l₂, hl, hc⟩ := of_mem h.2 ha
    have hsame : l = l₂ := unique h.2 hc.2
    have hlen : l.length = l₁.length + (l₂.length + 1) := by rw [hl]; simp
    rw [← hsame] at hlen
    omega

/-- A chain depends only on the links of its own nodes. -/
theorem congr (h : IsChain next s l) (heq : ∀ b ∈ l, next' b = next b) :
    IsChain next' s l := by
  induction l generalizing s with
  | nil => exact h
  | cons a l ih =>
    refine ⟨h.1, ?_⟩
    rw [heq a (List.mem_cons_self ..)]
    exact ih h.2 fun b hb => heq b (List.mem_cons_of_mem _ hb)

/-- Linking a new node in front of a chain. -/
theorem push [DecidableEq α] (h : IsChain next s l) (ha : a ∉ l) (hlink : next' a = s)
    (hframe : ∀ b, b ≠ a → next' b = next b) : IsChain next' (some a) (a :: l) := by
  refine ⟨rfl, ?_⟩
  rw [hlink]
  exact h.congr fun b hb => hframe b fun hba => ha (hba ▸ hb)

/-- Unlinking the first node: the chain goes on where that node pointed. -/
theorem pop (h : IsChain next (some a) l) : ∃ l', l = a :: l' ∧ IsChain next (next a) l' := by
  cases l with
  | nil => exact absurd h (by simp)
  | cons b l' =>
    have hab : a = b := Option.some.inj h.1
    subst hab
    exact ⟨l', rfl, h.2⟩

/-- No node of a chain points back to where it is entered. -/
theorem next_ne_start {b c : α} (h : IsChain next s l) (hb : b ∈ l) (hbc : next b = some c) :
    s ≠ some c := by
  intro hstart
  obtain ⟨l₁, l₂, rfl, hrest⟩ := h.of_mem hb
  have htail : IsChain next (some c) l₂ := by
    rw [← hbc]
    exact hrest.2
  obtain ⟨l₃, rfl, -⟩ := htail.pop
  have hc : c ∈ c :: l₃ := List.mem_cons_self ..
  -- then `c` would stand both first and behind `b`
  have hhead := h.head?
  rw [hstart] at hhead
  have hnodup := h.nodup
  cases l₁ with
  | nil =>
    have hbeq : c = b := Option.some.inj hhead
    rw [List.nil_append, List.nodup_cons] at hnodup
    exact hnodup.1 (hbeq ▸ hc)
  | cons a l₁ =>
    have haeq : c = a := Option.some.inj hhead
    rw [List.cons_append, List.nodup_cons] at hnodup
    exact hnodup.1 (haeq ▸ List.mem_append_right _ (List.mem_cons_of_mem _ hc))

/-- Only one node of a chain points to a given one. -/
theorem prev_unique {b c : α} (h : IsChain next s l) (ha : a ∈ l) (hb : b ∈ l)
    (hac : next a = some c) (hbc : next b = some c) : a = b := by
  induction l generalizing s with
  | nil => exact absurd ha List.not_mem_nil
  | cons d l ih =>
    rcases List.mem_cons.mp ha with had | hal
    · rcases List.mem_cons.mp hb with hbd | hbl
      · exact had.trans hbd.symm
      · exact absurd (had ▸ hac) (h.2.next_ne_start hbl hbc)
    · rcases List.mem_cons.mp hb with hbd | hbl
      · exact absurd (hbd ▸ hbc) (h.2.next_ne_start hal hac)
      · exact ih h.2 hal hbl

end IsChain

/-! ## Families of disjoint stacks -/

/-- One stack per index; no element is on two stacks, or twice on one. -/
@[ext] structure Stacks (ι α : Type*) where
  stack : ι → List α
  nodup : ∀ i, (stack i).Nodup
  disjoint : ∀ i j a, a ∈ stack i → a ∈ stack j → i = j

namespace Stacks

variable [DecidableEq ι] {S : Stacks ι α} {i j : ι} {a b : α} {l : List α}

/-- `a` is on one of the stacks. -/
def Mem (S : Stacks ι α) (a : α) : Prop := ∃ i, a ∈ S.stack i

/-- The empty family. -/
def empty : Stacks ι α where
  stack _ := []
  nodup _ := List.nodup_nil
  disjoint _ _ _ h := absurd h (List.not_mem_nil)

/-- Replace stack `i` by a list without repetitions whose elements are on no other
stack. -/
def replace (S : Stacks ι α) (i : ι) (l : List α) (hl : l.Nodup)
    (hnew : ∀ a ∈ l, ∀ j, a ∈ S.stack j → j = i) : Stacks ι α where
  stack := Function.update S.stack i l
  nodup j := by
    by_cases hj : j = i
    · subst hj; rwa [Function.update_self]
    · rw [Function.update_of_ne hj]; exact S.nodup j
  disjoint j k a hj hk := by
    by_cases hji : j = i
    · subst hji
      by_cases hki : k = j
      · exact hki.symm
      · rw [Function.update_self] at hj
        rw [Function.update_of_ne hki] at hk
        exact (hnew a hj k hk).symm
    · rw [Function.update_of_ne hji] at hj
      by_cases hki : k = i
      · subst hki
        rw [Function.update_self] at hk
        exact hnew a hk j hj
      · rw [Function.update_of_ne hki] at hk
        exact S.disjoint j k a hj hk

/-- Push an element that is on no stack. -/
def push (S : Stacks ι α) (i : ι) (a : α) (ha : ¬ S.Mem a) : Stacks ι α :=
  S.replace i (a :: S.stack i)
    (List.nodup_cons.mpr ⟨fun h => ha ⟨i, h⟩, S.nodup i⟩)
    (by
      intro b hb j hj
      rcases List.mem_cons.mp hb with rfl | hb
      · exact absurd ⟨j, hj⟩ ha
      · exact S.disjoint j i b hj hb)

/-- Drop the top of stack `i`, if there is one. -/
def pop (S : Stacks ι α) (i : ι) : Stacks ι α :=
  S.replace i (S.stack i).tail ((S.nodup i).sublist (List.tail_sublist _))
    (fun b hb j hj => S.disjoint j i b hj (List.mem_of_mem_tail hb))

@[simp] theorem push_stack_self (ha : ¬ S.Mem a) : (S.push i a ha).stack i = a :: S.stack i := by
  simp [push, replace]

@[simp] theorem push_stack_of_ne (ha : ¬ S.Mem a) (h : j ≠ i) :
    (S.push i a ha).stack j = S.stack j := by
  simp [push, replace, h]

@[simp] theorem pop_stack_self : (S.pop i).stack i = (S.stack i).tail := by
  simp [pop, replace]

@[simp] theorem pop_stack_of_ne (h : j ≠ i) : (S.pop i).stack j = S.stack j := by
  simp [pop, replace, h]

theorem mem_push (ha : ¬ S.Mem a) : (S.push i a ha).Mem b ↔ b = a ∨ S.Mem b := by
  constructor
  · rintro ⟨j, hj⟩
    by_cases hji : j = i
    · subst hji
      rw [push_stack_self, List.mem_cons] at hj
      exact hj.imp id fun h => ⟨j, h⟩
    · rw [push_stack_of_ne ha hji] at hj
      exact Or.inr ⟨j, hj⟩
  · rintro (rfl | ⟨j, hj⟩)
    · exact ⟨i, by rw [push_stack_self]; exact List.mem_cons_self ..⟩
    · by_cases hji : j = i
      · subst hji
        exact ⟨j, by rw [push_stack_self]; exact List.mem_cons_of_mem _ hj⟩
      · exact ⟨j, by rwa [push_stack_of_ne ha hji]⟩

/-- Popping removes exactly the top element. -/
theorem mem_pop (h : S.stack i = a :: l) : (S.pop i).Mem b ↔ b ≠ a ∧ S.Mem b := by
  have hnd : a ∉ l := (List.nodup_cons.mp (h ▸ S.nodup i)).1
  constructor
  · rintro ⟨j, hj⟩
    by_cases hji : j = i
    · subst hji
      rw [pop_stack_self, h, List.tail_cons] at hj
      exact ⟨fun hba => hnd (hba ▸ hj), j, h ▸ List.mem_cons_of_mem _ hj⟩
    · rw [pop_stack_of_ne hji] at hj
      refine ⟨fun hba => hji (S.disjoint j i a (hba ▸ hj) ?_), j, hj⟩
      rw [h]; exact List.mem_cons_self ..
  · rintro ⟨hne, j, hj⟩
    by_cases hji : j = i
    · subst hji
      rw [h, List.mem_cons] at hj
      refine ⟨j, ?_⟩
      rw [pop_stack_self, h, List.tail_cons]
      exact hj.resolve_left hne
    · exact ⟨j, by rwa [pop_stack_of_ne hji]⟩

end Stacks

end PointerChain
