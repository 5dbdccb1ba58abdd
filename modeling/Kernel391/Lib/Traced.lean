import Mathlib.Tactic.Common

/-!
# Computations that leave a trace

A traced computation notes events on its way and may stop before it has a result. With the
events left out it is an optional value, and `result_bind` says that this commutes with
running one computation after the other: a traced version of a function is shown to be that
function by rewriting. `mem_events_bind` and `always_bind` follow the events through it.
-/

namespace Trace

/-- The result, if there is one, and the events on the way. -/
structure Traced (ε : Type*) (α : Type) where
  result : Option α
  events : List ε

namespace Traced

variable {ε : Type*} {α β : Type}

/-- Note an event. -/
def emit (e : ε) : Traced ε Unit := { result := some (), events := [e] }

/-- Note several. -/
def emits (l : List ε) : Traced ε Unit := { result := some (), events := l }

/-- Note nothing, and stop where there is no value. -/
def ofOption (o : Option α) : Traced ε α := { result := o, events := [] }

instance : Monad (Traced ε) where
  pure a := { result := some a, events := [] }
  bind x f :=
    { result := x.result.bind fun a => (f a).result
      events := x.events ++ (x.result.map fun a => (f a).events).getD [] }

/-- The events of the first computation, and of the second if it is run. -/
theorem events_bind (x : Traced ε α) (f : α → Traced ε β) :
    (x >>= f).events = x.events ++ (x.result.map fun a => (f a).events).getD [] := rfl

/-- Nothing changes when steps are grouped another way. -/
theorem bind_assoc {γ : Type} (x : Traced ε α) (f : α → Traced ε β) (g : β → Traced ε γ) :
    x >>= f >>= g = x >>= fun a => f a >>= g := by
  obtain ⟨_ | a, l⟩ := x
  · show Traced.mk none (l ++ [] ++ []) = Traced.mk none (l ++ [])
    rw [List.append_nil]
  · show Traced.mk _ (l ++ (f a).events ++ _) = Traced.mk _ (l ++ ((f a).events ++ _))
    rw [List.append_assoc]
    rfl

theorem pure_bind (a : α) (f : α → Traced ε β) : pure a >>= f = f a := rfl

/-! ## Results -/

@[simp] theorem result_pure (a : α) : (pure a : Traced ε α).result = some a := rfl

@[simp] theorem result_emit (e : ε) : (emit e).result = some () := rfl

@[simp] theorem result_emits (l : List ε) : (emits l).result = some () := rfl

@[simp] theorem result_ofOption (o : Option α) : (ofOption o : Traced ε α).result = o := rfl

@[simp] theorem result_bind (x : Traced ε α) (f : α → Traced ε β) :
    (x >>= f).result = x.result.bind fun a => (f a).result := rfl

/-- A choice between two computations. -/
theorem result_ite (p : Prop) [Decidable p] (x y : Traced ε α) :
    (if p then x else y).result = if p then x.result else y.result :=
  apply_ite Traced.result p x y

/-! ## Events -/

@[simp] theorem events_emit (e : ε) : (emit e).events = [e] := rfl

/-- The events of the first computation, and of the second if it is run. -/
theorem mem_events_bind {x : Traced ε α} {f : α → Traced ε β} {e : ε} :
    e ∈ (x >>= f).events ↔ e ∈ x.events ∨ ∃ a, x.result = some a ∧ e ∈ (f a).events := by
  rw [events_bind, List.mem_append]
  refine or_congr_right ?_
  cases x.result with
  | none => simp
  | some a => simp

theorem mem_events_emit_bind {d e : ε} {f : Unit → Traced ε β} :
    e ∈ (emit d >>= f).events ↔ e = d ∨ e ∈ (f ()).events := by
  rw [mem_events_bind, events_emit, List.mem_singleton]
  exact or_congr_right ⟨fun ⟨_, _, h⟩ => h, fun h => ⟨(), rfl, h⟩⟩

/-- What a computation does with its result at the end adds no event. -/
theorem mem_events_bind_pure {x : Traced ε α} {f : α → β} {e : ε} :
    e ∈ (x >>= fun a => pure (f a)).events ↔ e ∈ x.events := by
  rw [mem_events_bind]
  refine or_iff_left ?_
  rintro ⟨a, -, h⟩
  exact absurd h List.not_mem_nil

/-- All events have a property. -/
def Always (P : ε → Prop) (x : Traced ε α) : Prop := ∀ e ∈ x.events, P e

variable {P : ε → Prop}

theorem always_pure (a : α) : Always P (pure a : Traced ε α) := fun _ h =>
  absurd h List.not_mem_nil

theorem always_ofOption (o : Option α) : Always P (ofOption o : Traced ε α) := fun _ h =>
  absurd h List.not_mem_nil

theorem always_emit {e : ε} : Always P (emit e) ↔ P e := by
  unfold Always
  rw [events_emit]
  exact List.forall_mem_singleton

theorem always_emits {l : List ε} : Always P (emits l) ↔ ∀ e ∈ l, P e := Iff.rfl

theorem always_bind {x : Traced ε α} {f : α → Traced ε β} :
    Always P (x >>= f) ↔ Always P x ∧ ∀ a, x.result = some a → Always P (f a) := by
  constructor
  · intro h
    refine ⟨fun e he => h e (mem_events_bind.mpr (Or.inl he)), fun a ha e he => ?_⟩
    exact h e (mem_events_bind.mpr (Or.inr ⟨a, ha, he⟩))
  · rintro ⟨hx, hf⟩ e he
    rcases mem_events_bind.mp he with he | ⟨a, ha, he⟩
    · exact hx e he
    · exact hf a ha e he

end Traced
end Trace
