import Mathlib.Logic.Relation
import Mathlib.Tactic.Common

/-!
# Guarded transition systems

A system is a set of initial states and a guarded step function: `step s e` is `some s'`
when event `e` can happen in state `s`, and `none` when it cannot. One definition serves
replay of a concrete run (`runFrom`, which `decide` can evaluate) and proof.

Three things live here:

* `ReachableWhere ok`, the states reached by runs each of whose steps meets the condition
  `ok` in the state it is taken from, with the induction principle every invariant
  proof starts from (`ReachableWhere.invariant`);
* `Simulates`, the refinement of one system by another through a relation on states, and
  its run lemma;
* `withHistory`, a system with a history variable that watches the steps and never
  influences them (`withHistory_erase`, `withHistory_lift`).

At the end is the invariant rule for a loop written with `List.foldlM`.
-/

namespace TransitionSystem

/-- Initial states and a guarded step function. -/
structure System (σ ε : Type*) where
  init : σ → Prop
  step : σ → ε → Option σ

namespace System

variable {σ ε τ δ η : Type*}

/-! ## Runs -/

/-- Replay a list of events; `none` if one of them is disabled on the way. -/
def runFrom (S : System σ ε) : σ → List ε → Option σ
  | s, [] => some s
  | s, e :: es => (S.step s e).bind fun s' => S.runFrom s' es

/-- States reached from an initial state by steps that all meet `ok`. -/
inductive ReachableWhere (S : System σ ε) (ok : σ → ε → Prop) : σ → Prop
  | init {s : σ} : S.init s → ReachableWhere S ok s
  | step {s s' : σ} {e : ε} :
      ReachableWhere S ok s → ok s e → S.step s e = some s' → ReachableWhere S ok s'

/-- States reached from an initial state by any steps. -/
def Reachable (S : System σ ε) : σ → Prop :=
  S.ReachableWhere fun _ _ => True

variable {S : System σ ε} {ok : σ → ε → Prop} {s s' : σ} {e : ε}

theorem Reachable.init (h : S.init s) : S.Reachable s := ReachableWhere.init h

theorem Reachable.step (h : S.Reachable s) (hs : S.step s e = some s') : S.Reachable s' :=
  ReachableWhere.step h trivial hs

/-- A weaker condition reaches at least as much. -/
theorem ReachableWhere.mono {ok' : σ → ε → Prop} (h : S.ReachableWhere ok s)
    (himp : ∀ s e, ok s e → ok' s e) : S.ReachableWhere ok' s := by
  induction h with
  | init h0 => exact .init h0
  | step _ hok hs ih => exact .step ih (himp _ _ hok) hs

theorem ReachableWhere.reachable (h : S.ReachableWhere ok s) : S.Reachable s :=
  h.mono fun _ _ _ => trivial

/-- A property that holds initially and survives every step that meets `ok`, taken from a
reachable state, holds of every state reached by such steps. -/
theorem ReachableWhere.invariant {P : σ → Prop} (h : S.ReachableWhere ok s)
    (hinit : ∀ s, S.init s → P s)
    (hstep : ∀ s e s', S.ReachableWhere ok s → P s → ok s e → S.step s e = some s' → P s') :
    P s := by
  induction h with
  | init h0 => exact hinit _ h0
  | step hr hok hs ih => exact hstep _ _ _ hr ih hok hs

/-- What every step keeps, a replay keeps. -/
theorem runFrom_invariant {P : σ → Prop} (hstep : ∀ s e s', P s → S.step s e = some s' → P s')
    (h : P s) (es : List ε) (hrun : S.runFrom s es = some s') : P s' := by
  induction es generalizing s with
  | nil =>
    rw [System.runFrom, Option.some.injEq] at hrun
    exact hrun ▸ h
  | cons e es ih =>
    rw [System.runFrom, Option.bind_eq_some_iff] at hrun
    obtain ⟨s₁, hs₁, hrun⟩ := hrun
    exact ih (hstep _ _ _ h hs₁) hrun

/-- A replay from a reachable state ends in a reachable state. -/
theorem Reachable.runFrom (h : S.Reachable s) (es : List ε) (hrun : S.runFrom s es = some s') :
    S.Reachable s' :=
  runFrom_invariant (fun _ _ _ hr hs => hr.step hs) h es hrun

/-- A replay shows that a state with a property is reachable. -/
theorem Reachable.exists_of_run {P : σ → Prop} [DecidablePred P] (h0 : S.init s) (es : List ε)
    (h : (S.runFrom s es).any (fun s => decide (P s)) = true) : ∃ s', S.Reachable s' ∧ P s' := by
  rw [Option.any_eq_true] at h
  obtain ⟨s', hrun, hP⟩ := h
  exact ⟨s', (Reachable.init h0).runFrom es hrun, of_decide_eq_true hP⟩

/-- The system that disables the steps that do not meet `ok`. -/
def restrict (S : System σ ε) (ok : σ → ε → Prop) [∀ s e, Decidable (ok s e)] : System σ ε where
  init := S.init
  step s e := if ok s e then S.step s e else none

theorem restrict_step [∀ s e, Decidable (ok s e)] (h : (S.restrict ok).step s e = some s') :
    ok s e ∧ S.step s e = some s' := by
  have hs : (if ok s e then S.step s e else none) = some s' := h
  split_ifs at hs with hok
  exact ⟨hok, hs⟩

/-- Its states are those the system reaches by steps that meet `ok`. -/
theorem ReachableWhere.of_restrict [∀ s e, Decidable (ok s e)]
    (h : (S.restrict ok).Reachable s) : S.ReachableWhere ok s := by
  induction h with
  | init h0 => exact .init h0
  | step _ _ hs ih =>
    obtain ⟨hok, hs⟩ := restrict_step hs
    exact .step ih hok hs

/-- A replay that stops at the first step that does not meet `ok`. -/
theorem ReachableWhere.of_runFrom [∀ s e, Decidable (ok s e)] (h0 : S.init s) (es : List ε)
    (hrun : (S.restrict ok).runFrom s es = some s') : S.ReachableWhere ok s' :=
  have hinit : (S.restrict ok).Reachable s := ReachableWhere.init h0
  ReachableWhere.of_restrict (hinit.runFrom es hrun)

/-- And shows that a state with a property is reached by such steps. -/
theorem ReachableWhere.exists_of_run [∀ s e, Decidable (ok s e)] {P : σ → Prop}
    [DecidablePred P] (h0 : S.init s) (es : List ε)
    (h : ((S.restrict ok).runFrom s es).any (fun s => decide (P s)) = true) :
    ∃ s', S.ReachableWhere ok s' ∧ P s' := by
  rw [Option.any_eq_true] at h
  obtain ⟨s', hrun, hP⟩ := h
  exact ⟨s', ReachableWhere.of_runFrom h0 es hrun, of_decide_eq_true hP⟩

/-! ## Refinement -/

/-- `R` relates every concrete state to an abstract one, initially and across every step
that meets `ok`: a concrete step is matched by abstract steps or by none. -/
structure Simulates (S : System σ ε) (ok : σ → ε → Prop) (abs : τ → τ → Prop)
    (absInit : τ → Prop) (R : σ → τ → Prop) : Prop where
  init : ∀ s, S.init s → ∃ a, absInit a ∧ R s a
  step : ∀ s e s' a, R s a → ok s e → S.step s e = some s' → ∃ a', abs a a' ∧ R s' a'

/-- Every reachable concrete state is related to an abstract state reached by as many
abstract steps. -/
theorem Simulates.reachable {abs : τ → τ → Prop} {absInit : τ → Prop} {R : σ → τ → Prop}
    (hsim : Simulates S ok abs absInit R) (h : S.ReachableWhere ok s) :
    ∃ a₀ a, absInit a₀ ∧ Relation.ReflTransGen abs a₀ a ∧ R s a := by
  induction h with
  | init h0 =>
    obtain ⟨a, ha, hR⟩ := hsim.init _ h0
    exact ⟨a, a, ha, .refl, hR⟩
  | step _ hok hs ih =>
    obtain ⟨a₀, a, ha₀, hreach, hR⟩ := ih
    obtain ⟨a', habs, hR'⟩ := hsim.step _ _ _ _ hR hok hs
    exact ⟨a₀, a', ha₀, hreach.tail habs, hR'⟩

/-! ## History variables -/

/-- Add a history variable: it starts at a value allowed by `h₀` and is updated from the
state before the step and the event. The steps themselves never read it. -/
def withHistory (S : System σ ε) (h₀ : σ → η → Prop) (upd : σ → ε → η → η) :
    System (σ × η) ε where
  init p := S.init p.1 ∧ h₀ p.1 p.2
  step p e := (S.step p.1 e).map fun s' => (s', upd p.1 e p.2)

variable {h₀ : σ → η → Prop} {upd : σ → ε → η → η}

theorem withHistory_step_iff {p p' : σ × η} :
    (S.withHistory h₀ upd).step p e = some p' ↔
      S.step p.1 e = some p'.1 ∧ p'.2 = upd p.1 e p.2 := by
  simp only [withHistory, Option.map_eq_some_iff]
  constructor
  · rintro ⟨s', hs, rfl⟩
    exact ⟨hs, rfl⟩
  · rintro ⟨hs, hh⟩
    exact ⟨p'.1, hs, Prod.ext rfl hh.symm⟩

/-- Forgetting the history of a run leaves a run of the system. -/
theorem withHistory_erase {p : σ × η}
    (h : (S.withHistory h₀ upd).ReachableWhere (fun p => ok p.1) p) :
    S.ReachableWhere ok p.1 := by
  induction h with
  | init h0 => exact .init h0.1
  | step _ hok hs ih => exact .step ih hok (withHistory_step_iff.mp hs).1

/-- Every run of the system carries a history. -/
theorem withHistory_lift (hex : ∀ s, S.init s → ∃ h, h₀ s h) (h : S.ReachableWhere ok s) :
    ∃ hist, (S.withHistory h₀ upd).ReachableWhere (fun p => ok p.1) (s, hist) := by
  induction h with
  | init h0 =>
    obtain ⟨hist, hh⟩ := hex _ h0
    exact ⟨hist, .init ⟨h0, hh⟩⟩
  | step _ hok hs ih =>
    obtain ⟨hist, hr⟩ := ih
    exact ⟨_, .step hr hok (withHistory_step_iff.mpr ⟨hs, rfl⟩)⟩

end System

/-! ## Loops that may fail -/

/-- A loop that gets to its end keeps what each of its rounds keeps. -/
theorem foldlM_invariant {α β : Type*} {f : β → α → Option β} {P : β → Prop} {l : List α}
    (hstep : ∀ b a b', a ∈ l → P b → f b a = some b' → P b') {b b' : β} (hb : P b)
    (h : l.foldlM f b = some b') : P b' := by
  induction l generalizing b with
  | nil =>
    rw [List.foldlM_nil] at h
    cases h
    exact hb
  | cons a l ih =>
    rw [List.foldlM_cons, Option.bind_eq_bind, Option.bind_eq_some_iff] at h
    obtain ⟨b₁, hb₁, h⟩ := h
    refine ih (fun b a b' ha => hstep b a b' (List.mem_cons_of_mem _ ha)) ?_ h
    exact hstep b a b₁ (List.mem_cons_self ..) hb hb₁

end TransitionSystem
