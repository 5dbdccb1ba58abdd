import Kernel391.CommandTheorems
import Kernel391.Lib.RoundRobin
import Kernel391.ProcessForest

/-!
# How long a terminal waits for the processor

The timer gives the processor to the next terminal that has a process, so that such a terminal
is passed over by no tick. Yet `execute`, `halt` and `launch_term` also move the processor, to
the terminal on display, and the timer then starts over from there. The history counts both for
every terminal since it had the processor, and one count bounds the other (`terminal_waits`).
-/

namespace Kernel391

open RoundRobin TransitionSystem

/-! ## What is counted -/

/-- What has happened since a terminal had the processor. -/
structure Wait where
  /-- Ticks of the timer. -/
  ticks : ℕ
  /-- Other operations that took the processor from one terminal to another. -/
  moves : ℕ

namespace Wait

def none : Wait where
  ticks := 0
  moves := 0

def count (m : Machine) (k : Kernel) (e : Event) (w : Wait) : Wait :=
  match e with
  | .tick _ => { w with ticks := w.ticks + 1 }
  | e =>
    if (step m k e).any fun r => r.1.running_term ≠ k.running_term then
      { w with moves := w.moves + 1 }
    else w

end Wait

/-- A terminal that runs, or has no process, has not been waiting. -/
def noteWait (m : Machine) (k : Kernel) (e : Event) (h : TermId → Wait) (t : TermId) : Wait :=
  Wait.count m k e (if k.running_term = t ∨ k.running_pid t = none then .none else h t)

/-- The kernel with what every terminal has been waiting for. -/
def waitSystem (m : Machine) : System (Kernel × (TermId → Wait)) Event :=
  (system m fun _ => True).withHistory (fun _ h => ∀ t, h t = .none) (noteWait m)

/-- A terminal with a process that does not run. -/
def Waiting (t : TermId) (k : Kernel) : Prop := k.running_pid t ≠ none ∧ k.running_term ≠ t

instance (t : TermId) (k : Kernel) : Decidable (Waiting t k) := by
  unfold Waiting
  infer_instance

/-! ## One step -/

section
variable {m : Machine} {k k' : Kernel} {t : TermId}

/-- The search of `get_next_process`, while some other terminal has a process. -/
theorem get_next_process_isNext {next : TermId} {p : Option Pid} (ht : Waiting t k)
    (h : get_next_process k = (next, p)) :
    IsNext (fun u => k.running_pid u ≠ none) k.running_term next := by
  have hother : ∀ r : TermId, r + 1 ≠ r := by decide
  have hnear : ∀ r u : TermId, u ≠ r → ahead r (r + 1) ≤ ahead r u := by decide
  have hround : ∀ r u : TermId, u ≠ r → u = r + 1 ∨ u = r + 1 + 1 := by decide
  have hnext := congrArg Prod.fst h
  obtain ⟨hpid, hne⟩ := ht
  unfold get_next_process at hnext
  dsimp only at hnext
  by_cases h1 : k.running_pid (k.running_term + 1) ≠ none
  · rw [if_pos h1] at hnext
    subst hnext
    exact ⟨h1, hother _, fun u _ hu => hnear _ u hu⟩
  · -- the one that waits is the last place there is
    have ht2 : t = k.running_term + 1 + 1 := by
      rcases hround _ _ hne.symm with ht1 | ht2
      · exact absurd (ht1 ▸ hpid) h1
      · exact ht2
    have h2 : k.running_pid (k.running_term + 1 + 1) ≠ none := ht2 ▸ hpid
    rw [if_neg h1, if_pos h2, ← ht2] at hnext
    subst hnext
    refine ⟨hpid, hne.symm, fun u hu hur => ?_⟩
    rcases hround _ _ hur with hu1 | hu2
    · exact absurd (hu1 ▸ hu) h1
    · rw [hu2, ht2]

/-- A tick brings the processor nearer to a terminal that waits. -/
theorem tick_nearer {fr : Frame} {F : Forest TermId Pid} (hF : Refines k.links F)
    (ht : Waiting t k) (h : pit_interrupt_handler m fr k = some k') :
    ahead k'.running_term t < ahead k.running_term t := by
  rcases pit_interrupt_handler_cases hF.stacked.number h with ⟨h1, h2, -⟩ |
    ⟨-, next, p, curr, hnext, -, rfl⟩
  · -- with terminal 0 alone in use nobody waits
    have hcur : k.running_pid k.running_term ≠ none := by
      rw [show k.running_pid k.running_term = some k.cur_pid from hF.cur]
      exact Option.some_ne_none _
    have hplaces : ∀ u : TermId, u = 0 ∨ u = 1 ∨ u = 2 := by decide
    have honly : ∀ u, k.running_pid u ≠ none → u = 0 := by
      intro u hu
      rcases hplaces u with h0 | rfl | rfl
      · exact h0
      · exact absurd h1 hu
      · exact absurd h2 hu
    exact absurd ((honly _ hcur).trans (honly _ ht.1).symm) ht.2
  · exact (get_next_process_isNext ht hnext).ahead_lt ht.1 ht.2.symm

/-- How a step is counted. -/
theorem count_cases {e : Event} {out : Outcome} (w : Wait) (hs : step m k e = some (k', out)) :
    (∃ fr, e = .tick fr ∧ w.count m k e = { w with ticks := w.ticks + 1 }) ∨
    (k'.running_term = k.running_term ∧ w.count m k e = w) ∨
    w.count m k e = { w with moves := w.moves + 1 } := by
  by_cases htick : ∃ fr, e = .tick fr
  · obtain ⟨fr, rfl⟩ := htick
    exact Or.inl ⟨fr, rfl, rfl⟩
  · have hcount : w.count m k e = if (step m k e).any fun r => r.1.running_term ≠ k.running_term
        then { w with moves := w.moves + 1 } else w := by
      unfold Wait.count
      split
      · next fr => exact absurd ⟨fr, rfl⟩ htick
      · rfl
    rw [hcount, hs]
    by_cases hsame : k'.running_term = k.running_term
    · refine Or.inr (Or.inl ⟨hsame, if_neg ?_⟩)
      simp [hsame]
    · refine Or.inr (Or.inr (if_pos ?_))
      simp [hsame]

/-- What a terminal may have waited for: every tick has brought the processor nearer, and every
other move has taken it back by one place at most. -/
def WaitOk (k : Kernel) (t : TermId) (w : Wait) : Prop :=
  Waiting t k → w.ticks + ahead k.running_term t ≤ NUM_TERM + w.moves

theorem WaitOk.step {e : Event} {out : Outcome} {F : Forest TermId Pid} {h : TermId → Wait}
    (hF : Refines k.links F) (hok : WaitOk k t (h t)) (hs : step m k e = some (k', out)) :
    WaitOk k' t (noteWait m k e h t) := by
  intro hwait
  have hlt : ahead k'.running_term t < 3 := ahead_lt _ _
  have hterms : NUM_TERM = 3 := rfl
  unfold noteWait
  by_cases hstart : k.running_term = t ∨ k.running_pid t = none
  · -- the wait begins with this step
    rw [if_pos hstart]
    rcases count_cases .none hs with ⟨fr, -, hcount⟩ | ⟨-, hcount⟩ | hcount
    all_goals
      rw [hcount]
      unfold Wait.none
      dsimp only
      omega
  · rw [if_neg hstart]
    push Not at hstart
    have hwait₀ : Waiting t k := ⟨hstart.2, hstart.1⟩
    have hpos : 0 < ahead k.running_term t := ahead_pos hstart.1
    have hbound := hok hwait₀
    rcases count_cases (h t) hs with ⟨fr, rfl, hcount⟩ | ⟨hsame, hcount⟩ | hcount
    · have hnearer := tick_nearer hF hwait₀ (step_tick hs).1
      rw [hcount]
      dsimp only
      omega
    · rw [hcount, hsame]
      exact hbound
    · rw [hcount]
      dsimp only
      omega

end

/-! ## Runs -/

theorem waitOk_of_reachable {m : Machine} {p : Kernel × (TermId → Wait)}
    (h : (waitSystem m).Reachable p) (t : TermId) : WaitOk p.1 t (p.2 t) := by
  refine System.ReachableWhere.invariant (P := fun p => WaitOk p.1 t (p.2 t)) h
    (fun p h0 hwait => ?_) fun p e p' hreach hok _ hstep => ?_
  · have hlt : ahead p.1.running_term t < NUM_TERM := ahead_lt _ _
    rw [h0.2 t]
    unfold Wait.none
    dsimp only
    omega
  · obtain ⟨hstep, hnote⟩ := System.withHistory_step_iff.mp hstep
    obtain ⟨out, hs⟩ := system_step_iff.mp hstep
    have hk : Reachable m p.1 := System.withHistory_erase (hreach.mono fun _ _ _ => trivial)
    obtain ⟨F, hF⟩ := hk.refines
    rw [hnote]
    exact hok.step hF hs

/-- In every run, a terminal that has a process and waits for the processor has seen fewer ticks
go by than there are terminals, and one more for each time that something else than the timer
moved the processor. -/
theorem terminal_waits {m : Machine} {k : Kernel} {h : TermId → Wait}
    (hreach : (waitSystem m).Reachable (k, h)) {t : TermId} (hwait : Waiting t k) :
    (h t).ticks < NUM_TERM + (h t).moves := by
  have hbound := waitOk_of_reachable hreach t hwait
  have hpos : 0 < ahead k.running_term t := ahead_pos hwait.2
  dsimp only at hbound
  omega

theorem sampleWait_init :
    (waitSystem sampleMachine).init (sampleKernel, fun _ => .none) :=
  ⟨⟨sampleMemory, trivial, sampleKernel_started⟩, fun _ => rfl⟩

/-- Two more shells are started; one tick later the middle terminal has seen that tick go by,
and the third shell start before. -/
theorem terminal_waits_middle : ∃ k h, (waitSystem sampleMachine).Reachable (k, h) ∧
    Waiting 1 k ∧ (h 1).ticks = 1 ∧ (h 1).moves = 1 ∧ (h 1).ticks < NUM_TERM + (h 1).moves := by
  have hrun : ((waitSystem sampleMachine).runFrom (sampleKernel, fun _ => .none)
      [.launch_term 1 sampleFrame sampleFrame, .launch_term 2 sampleFrame sampleFrame,
        .tick sampleFrame]).any (fun s =>
      decide (Waiting 1 s.1 ∧ (s.2 1).ticks = 1 ∧ (s.2 1).moves = 1)) = true := by
    decide +kernel
  obtain ⟨⟨k, h⟩, hreach, hwait, hticks, hmoves⟩ :=
    System.Reachable.exists_of_run sampleWait_init _ hrun
  exact ⟨k, h, hreach, hwait, hticks, hmoves, terminal_waits hreach hwait⟩

end Kernel391
