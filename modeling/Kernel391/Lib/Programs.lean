import Mathlib.Logic.Relation
import Mathlib.Tactic.Common

/-!
# Programs that call on a system they share

A program (`Prog`) is what it does between its calls; a call goes out to a platform and comes
back with a reply. Between the moment the program is ready to call and the moment the call is
taken up the platform may move on its own, for other programs, and it may answer in more than
one way: `Platform` says what is possible.

`Ensures P Q p w` is total correctness against every such behaviour: whatever the platform
does, no call of `p` goes unanswered, the program ends, and `Q` holds of its result and of the
platform it leaves. The rules are those of the constructs (`Ensures.bind`, `Ensures.loop_of`
with an invariant and a measure); `Ensures.everyRun` says what the judgement means for the
steps of the program.

`Safe P G Q p w` is for programs that need not end, and calls that need not be answered: `G`
holds of the platform at every moment, and `Q` of a result. Its rule for loops (`Safe.loop_of`)
asks for an invariant only. `Platform.recorded` adds the calls and replies so far to the
platform, for `G` and `Q` to speak about.
-/

namespace Programs

/-- A program that makes calls `Call` and is given replies `Reply`, and in the end returns a
value. A `loop` repeats its body on a state until the body gives a result. -/
inductive Prog (Call Reply : Type) : Type → Type 1
  | ret {α : Type} (a : α) : Prog Call Reply α
  | call {α : Type} (c : Call) (k : Reply → Prog Call Reply α) : Prog Call Reply α
  | loop {α σ β : Type} (body : σ → Prog Call Reply (σ ⊕ β)) (s : σ)
      (k : β → Prog Call Reply α) : Prog Call Reply α

namespace Prog

variable {Call Reply : Type} {α β γ : Type}

/-- Go on with the result. -/
def bind : Prog Call Reply α → (α → Prog Call Reply β) → Prog Call Reply β
  | ret a, f => f a
  | call c k, f => call c fun r => bind (k r) f
  | loop body s k, f => loop body s fun b => bind (k b) f

/-- What follows a round of a loop. -/
def next {σ : Type} (body : σ → Prog Call Reply (σ ⊕ β)) (k : β → Prog Call Reply α) :
    σ ⊕ β → Prog Call Reply α
  | .inl s => loop body s k
  | .inr b => k b

instance : Monad (Prog Call Reply) where
  pure := ret
  bind := bind

/-- One call, and its reply. -/
def perform (c : Call) : Prog Call Reply Reply := call c ret

/-- A loop on its own. -/
def repeatUntil {σ : Type} (body : σ → Prog Call Reply (σ ⊕ β)) (s : σ) : Prog Call Reply β :=
  loop body s ret

theorem bind_assoc (p : Prog Call Reply α) (f : α → Prog Call Reply β)
    (g : β → Prog Call Reply γ) : bind (bind p f) g = bind p fun a => bind (f a) g := by
  induction p with
  | ret a => rfl
  | call c k ih =>
    simp only [bind]
    congr 1
    funext r
    exact ih r f
  | loop body s k _ ih =>
    simp only [bind]
    congr 1
    funext b
    exact ih b f

theorem next_bind {σ : Type} (body : σ → Prog Call Reply (σ ⊕ β)) (k : β → Prog Call Reply α)
    (f : α → Prog Call Reply γ) (o : σ ⊕ β) :
    bind (next body k o) f = next body (fun b => bind (k b) f) o := by
  cases o with
  | inl s => rfl
  | inr b => rfl

end Prog

/-- A system that answers calls. -/
structure Platform (Call Reply World : Type) where
  /-- How it may have moved before it takes up a call. -/
  between : World → Call → World → Prop
  /-- How it may answer one. -/
  answer : World → Call → World → Reply → Prop

variable {Call Reply World : Type} {P : Platform Call Reply World} {α β : Type}

/-- A step of a program. -/
inductive Step (P : Platform Call Reply World) :
    Prog Call Reply α × World → Prog Call Reply α × World → Prop
  | call {c : Call} {k : Reply → Prog Call Reply α} {w w₁ w₂ : World} {r : Reply} :
      P.between w c w₁ → P.answer w₁ c w₂ r → Step P (.call c k, w) (k r, w₂)
  | loop {σ β : Type} {body : σ → Prog Call Reply (σ ⊕ β)} {s : σ}
      {k : β → Prog Call Reply α} {w : World} :
      Step P (.loop body s k, w) ((body s).bind (.next body k), w)

/-- Every run ends, and `Q` holds of what it ends with; no call goes unanswered. -/
inductive Ensures (P : Platform Call Reply World) (Q : α → World → Prop) :
    Prog Call Reply α → World → Prop
  | ret {a : α} {w : World} : Q a w → Ensures P Q (.ret a) w
  | call {c : Call} {k : Reply → Prog Call Reply α} {w : World} :
      (∀ w₁, P.between w c w₁ → ∃ w₂ r, P.answer w₁ c w₂ r) →
      (∀ w₁ w₂ r, P.between w c w₁ → P.answer w₁ c w₂ r → Ensures P Q (k r) w₂) →
      Ensures P Q (.call c k) w
  | loop {σ β : Type} {body : σ → Prog Call Reply (σ ⊕ β)} {s : σ}
      {k : β → Prog Call Reply α} {w : World} :
      Ensures P Q ((body s).bind (.next body k)) w → Ensures P Q (.loop body s k) w

/-! ## Rules -/

section
variable {Q Q' : α → World → Prop} {p : Prog Call Reply α} {w : World}

theorem Ensures.mono (h : Ensures P Q p w) (himp : ∀ a w, Q a w → Q' a w) :
    Ensures P Q' p w := by
  induction h with
  | ret h => exact .ret (himp _ _ h)
  | call hanswered _ ih => exact .call hanswered ih
  | loop _ ih => exact .loop ih

/-- One program after the other. -/
theorem Ensures.bind {f : α → Prog Call Reply β} {R : β → World → Prop}
    (h : Ensures P (fun a w => Ensures P R (f a) w) p w) : Ensures P R (p.bind f) w := by
  induction h with
  | ret h => exact h
  | call hanswered _ ih => exact .call hanswered ih
  | loop _ ih =>
    refine .loop ?_
    rw [Prog.bind_assoc] at ih
    simp only [Prog.next_bind] at ih
    exact ih

/-- The rule for loops: an invariant that every round keeps, and a measure that every round
which is not the last makes smaller. -/
theorem Ensures.loop_of {σ : Type} {body : σ → Prog Call Reply (σ ⊕ β)}
    {k : β → Prog Call Reply α} (I : σ → World → Prop) (μ : σ → World → ℕ)
    (hround : ∀ s w, I s w → Ensures P (fun o w' =>
      (∀ s', o = .inl s' → I s' w' ∧ μ s' w' < μ s w) ∧
        ∀ b, o = .inr b → Ensures P Q (k b) w') (body s) w)
    {s : σ} (h : I s w) : Ensures P Q (.loop body s k) w := by
  -- the rounds left are bounded by the measure
  generalize hn : μ s w = n
  induction n using Nat.strongRecOn generalizing s w with
  | _ n ih =>
    refine .loop (Ensures.bind ((hround s w h).mono fun o w' ho => ?_))
    cases o with
    | inl s' =>
      obtain ⟨hkept, hless⟩ := ho.1 s' rfl
      exact ih (μ s' w') (hn ▸ hless) hkept rfl
    | inr b => exact ho.2 b rfl

end

/-! ## What the rules are about -/

/-- The configurations a program gets to. -/
def Runs (P : Platform Call Reply World) :
    Prog Call Reply α × World → Prog Call Reply α × World → Prop :=
  Relation.ReflTransGen (Step P)

/-- A configuration that waits for no call that might go unanswered. -/
def Answered (P : Platform Call Reply World) (c : Prog Call Reply α × World) : Prop :=
  ∀ call k, c.1 = .call call k → ∀ w₁, P.between c.2 call w₁ → ∃ w₂ r, P.answer w₁ call w₂ r

/-- Every run of the program from `w` ends, gets an answer to each call, and returns a value
with `Q`. -/
structure EveryRun (P : Platform Call Reply World) (Q : α → World → Prop)
    (p : Prog Call Reply α) (w : World) : Prop where
  ends : Acc (fun c c' : Prog Call Reply α × World => Step P c' c) (p, w)
  answered : ∀ c, Runs P (p, w) c → Answered P c
  result : ∀ a w', Runs P (p, w) (.ret a, w') → Q a w'

section
variable {Q : α → World → Prop} {p p' : Prog Call Reply α} {w w' : World}

theorem Ensures.step (h : Ensures P Q p w) (hstep : Step P (p, w) (p', w')) :
    Ensures P Q p' w' := by
  cases hstep with
  | call hbetween hanswer =>
    cases h with
    | call _ hrest => exact hrest _ _ _ hbetween hanswer
  | loop =>
    cases h with
    | loop hround => exact hround

theorem Ensures.runs {c : Prog Call Reply α × World} (h : Ensures P Q p w)
    (hruns : Runs P (p, w) c) : Ensures P Q c.1 c.2 := by
  induction hruns with
  | refl => exact h
  | tail _ hstep ih => exact ih.step hstep

theorem Ensures.ends (h : Ensures P Q p w) :
    Acc (fun c c' : Prog Call Reply α × World => Step P c' c) (p, w) := by
  induction h with
  | ret _ =>
    refine ⟨_, fun c hstep => ?_⟩
    cases hstep
  | call _ _ ih =>
    refine ⟨_, fun c hstep => ?_⟩
    cases hstep with
    | call hbetween hanswer => exact ih _ _ _ hbetween hanswer
  | loop _ ih =>
    refine ⟨_, fun c hstep => ?_⟩
    cases hstep with
    | loop => exact ih

/-- The judgement speaks about the runs of the program. -/
theorem Ensures.everyRun (h : Ensures P Q p w) : EveryRun P Q p w := by
  refine ⟨h.ends, fun c hruns call k hcall => ?_, fun a w' hruns => ?_⟩
  · have hc := h.runs hruns
    rw [hcall] at hc
    cases hc with
    | call hanswered _ => exact hanswered
  · have hc := h.runs hruns
    cases hc with
    | ret hQ => exact hQ

end

/-! ## Programs that need not end -/

/-- At every moment of every run `G` holds of the platform, and `Q` of what a run ends with. -/
def Safe (P : Platform Call Reply World) (G : World → Prop) (Q : α → World → Prop)
    (p : Prog Call Reply α) (w : World) : Prop :=
  ∀ c, Runs P (p, w) c → G c.2 ∧ ∀ a, c.1 = .ret a → Q a c.2

section
variable {G : World → Prop} {Q : α → World → Prop} {p p' : Prog Call Reply α} {w w' : World}

theorem Safe.here (h : Safe P G Q p w) : G w := (h (p, w) .refl).1

theorem Safe.step (h : Safe P G Q p w) (hstep : Step P (p, w) (p', w')) : Safe P G Q p' w' :=
  fun c hruns => h c (.head hstep hruns)

/-- To be safe now, and after every step. -/
theorem safe_of_steps (hG : G w) (hQ : ∀ a, p = .ret a → Q a w)
    (hsteps : ∀ p' w', Step P (p, w) (p', w') → Safe P G Q p' w') : Safe P G Q p w := by
  intro c hruns
  cases Relation.ReflTransGen.cases_head hruns with
  | inl heq =>
    rw [← heq]
    exact ⟨hG, hQ⟩
  | inr hnext =>
    obtain ⟨⟨p', w'⟩, hstep, hrest⟩ := hnext
    exact hsteps p' w' hstep c hrest

theorem Safe.ret {a : α} (hG : G w) (hQ : Q a w) : Safe P G Q (.ret a) w := by
  refine safe_of_steps hG (fun b hb => ?_) fun p' w' hstep => ?_
  · cases hb
    exact hQ
  · cases hstep

theorem Safe.call {c : Call} {k : Reply → Prog Call Reply α} (hG : G w)
    (hrest : ∀ w₁ w₂ r, P.between w c w₁ → P.answer w₁ c w₂ r → Safe P G Q (k r) w₂) :
    Safe P G Q (.call c k) w := by
  refine safe_of_steps hG (fun a ha => ?_) fun p' w' hstep => ?_
  · cases ha
  · cases hstep with
    | call hbetween hanswer => exact hrest _ _ _ hbetween hanswer

/-- A property of configurations that every step keeps. -/
theorem safe_of_invariant (J : Prog Call Reply α × World → Prop)
    (hJ : ∀ c, J c → G c.2 ∧ ∀ a, c.1 = .ret a → Q a c.2)
    (hsteps : ∀ c c', J c → Step P c c' → J c') (h : J (p, w)) : Safe P G Q p w := by
  intro c hruns
  refine hJ c ?_
  induction hruns with
  | refl => exact h
  | tail _ hstep ih => exact hsteps _ _ ih hstep

/-- A step of one program before another is one of its own, or it has ended. -/
theorem step_bind {q : Prog Call Reply β} {f : β → Prog Call Reply α}
    (hstep : Step P (q.bind f, w) (p', w')) :
    (∃ b, q = .ret b ∧ Step P (f b, w) (p', w')) ∨
      ∃ q', Step P (q, w) (q', w') ∧ p' = q'.bind f := by
  cases q with
  | ret b => exact Or.inl ⟨b, rfl, hstep⟩
  | call c k =>
    cases hstep with
    | call hbetween hanswer => exact Or.inr ⟨_, .call hbetween hanswer, rfl⟩
  | loop body s k =>
    cases hstep with
    | loop =>
      refine Or.inr ⟨_, .loop, ?_⟩
      rw [Prog.bind_assoc]
      simp only [Prog.next_bind]

/-- A program before another, which may come back to the first: `K` holds where the second begins,
and each first step from there is safe or begins the first again. -/
theorem Safe.bind_of {q : Prog Call Reply β} {f : β → Prog Call Reply α} (K : β → World → Prop)
    (hK : ∀ b w, K b w → G w ∧ (∀ a, f b = .ret a → Q a w) ∧
      ∀ p' w', Step P (f b, w) (p', w') →
        Safe P G Q p' w' ∨ ∃ q', p' = q'.bind f ∧ Safe P G K q' w')
    (hq : Safe P G K q w) : Safe P G Q (q.bind f) w := by
  refine safe_of_invariant (fun c => (∃ q, c.1 = q.bind f ∧ Safe P G K q c.2) ∨
    Safe P G Q c.1 c.2) ?_ ?_ (Or.inl ⟨q, rfl, hq⟩)
  · rintro ⟨p, w⟩ (⟨q, heq, hq⟩ | hp)
    · refine ⟨hq.here, fun a ha => ?_⟩
      have hret : q.bind f = .ret a := heq.symm.trans ha
      cases q with
      | ret b => exact (hK b w ((hq _ .refl).2 b rfl)).2.1 a hret
      | call c k => cases hret
      | loop body s k => cases hret
    · exact hp _ .refl
  · rintro ⟨p, w⟩ ⟨p', w'⟩ (⟨q, heq, hq⟩ | hp) hstep
    · dsimp only at heq
      subst heq
      rcases step_bind hstep with ⟨b, rfl, hnext⟩ | ⟨q', hnext, rfl⟩
      · rcases (hK b w ((hq _ .refl).2 b rfl)).2.2 p' w' hnext with hsafe | hagain
        · exact Or.inr hsafe
        · exact Or.inl hagain
      · exact Or.inl ⟨q', rfl, hq.step hnext⟩
    · exact Or.inr (hp.step hstep)

/-- What a round of a loop has to leave: the invariant, or what follows the loop is safe. -/
def AfterRound {σ : Type} (P : Platform Call Reply World) (G : World → Prop)
    (Q : α → World → Prop) (I : σ → World → Prop) (k : β → Prog Call Reply α) :
    σ ⊕ β → World → Prop
  | .inl s, w => I s w
  | .inr b, w => Safe P G Q (k b) w

/-- The rule for loops that need not end: an invariant that every round keeps. -/
theorem Safe.loop_of {σ : Type} {body : σ → Prog Call Reply (σ ⊕ β)}
    {k : β → Prog Call Reply α} (I : σ → World → Prop)
    (hround : ∀ s w, I s w → Safe P G (AfterRound P G Q I k) (body s) w) {s : σ} (h : I s w) :
    Safe P G Q (.loop body s k) w := by
  have hstart : Safe P G (AfterRound P G Q I k) (.ret (.inl s)) w :=
    .ret (hround s w h).here h
  refine Safe.bind_of (f := Prog.next body k) _ (fun o w ho => ?_) hstart
  cases o with
  | inl s =>
    have hbody := hround s w ho
    refine ⟨hbody.here, fun a ha => ?_, fun p' w' hstep => Or.inr ?_⟩
    · cases ha
    · cases hstep with
      | loop => exact ⟨body s, rfl, hbody⟩
  | inr b => exact ⟨ho.here, (ho _ .refl).2, fun p' w' hstep => Or.inl (ho.step hstep)⟩

end

/-- The platform with a record of what it has answered. -/
def Platform.recorded (P : Platform Call Reply World) :
    Platform Call Reply (World × List (Call × Reply)) where
  between w c w₁ := P.between w.1 c w₁.1 ∧ w₁.2 = w.2
  answer w₁ c w₂ r := P.answer w₁.1 c w₂.1 r ∧ w₂.2 = w₁.2 ++ [(c, r)]

end Programs
