import Mathlib.Data.Int.Basic
import Mathlib.Tactic.Common

/-!
# Searching downwards

`searchDown p n i` looks at the positions `i`, `i - 1`, … for one with the property `p`, and
gives up after `n` of them. What it finds is the last such position at or before `i`
(`searchDown_eq_some_iff`), and it finds one if and only if the positions it looks at
(`looked`) end within the `n` it may look at (`looked_inside_iff`).
-/

namespace SearchDown

variable (p : ℤ → Prop) [DecidablePred p]

/-- The last position at or before `i`, among `n`, with the property. -/
def searchDown : ℕ → ℤ → Option ℤ
  | 0, _ => none
  | n + 1, i => if p i then some i else searchDown n (i - 1)

/-- The positions that are looked at, the one behind the last of the `n` included. -/
def looked : ℕ → ℤ → List ℤ
  | 0, i => [i]
  | n + 1, i => i :: if p i then [] else looked n (i - 1)

variable {p} {n : ℕ} {i o : ℤ}

theorem searchDown_eq_some_iff :
    searchDown p n i = some o ↔ i - n < o ∧ o ≤ i ∧ p o ∧ ∀ j, o < j → j ≤ i → ¬ p j := by
  induction n generalizing i with
  | zero =>
    rw [searchDown]
    constructor
    · intro h
      cases h
    · rintro ⟨hlo, hhi, -⟩
      omega
  | succ n ih =>
    rw [searchDown]
    split_ifs with hi
    · rw [Option.some.injEq]
      constructor
      · rintro rfl
        exact ⟨by omega, Int.le_refl _, hi, fun j hlo hhi => by omega⟩
      · rintro ⟨-, hhi, -, hlast⟩
        by_contra hne
        exact hlast i (by omega) (Int.le_refl _) hi
    · rw [ih]
      constructor
      · rintro ⟨hlo, hhi, ho, hlast⟩
        refine ⟨by omega, by omega, ho, fun j hj hji => ?_⟩
        by_cases hjeq : j = i
        · exact hjeq ▸ hi
        · exact hlast j hj (by omega)
      · rintro ⟨hlo, hhi, ho, hlast⟩
        have hne : o ≠ i := fun heq => hi (heq ▸ ho)
        exact ⟨by omega, by omega, ho, fun j hj hji => hlast j hj (by omega)⟩

theorem searchDown_isSome_iff :
    (searchDown p n i).isSome ↔ ∃ o, i - n < o ∧ o ≤ i ∧ p o := by
  induction n generalizing i with
  | zero =>
    rw [searchDown]
    constructor
    · intro h
      cases h
    · rintro ⟨o, hlo, hhi, -⟩
      omega
  | succ n ih =>
    rw [searchDown]
    split_ifs with hi
    · exact iff_of_true rfl ⟨i, by omega, Int.le_refl _, hi⟩
    · rw [ih]
      constructor
      · rintro ⟨o, hlo, hhi, ho⟩
        exact ⟨o, by omega, by omega, ho⟩
      · rintro ⟨o, hlo, hhi, ho⟩
        have hne : o ≠ i := fun heq => hi (heq ▸ ho)
        exact ⟨o, by omega, by omega, ho⟩

/-- No position behind the start is looked at. -/
theorem looked_le {j : ℤ} (h : j ∈ looked p n i) : j ≤ i := by
  induction n generalizing i with
  | zero =>
    rw [looked, List.mem_singleton] at h
    exact Int.le_of_eq h
  | succ n ih =>
    rw [looked, List.mem_cons] at h
    rcases h with rfl | h
    · exact Int.le_refl _
    · split_ifs at h
      · exact absurd h List.not_mem_nil
      · have hle := ih h
        omega

/-- The search stays among its `n` positions exactly if it finds something there. -/
theorem looked_inside_iff :
    (∀ j ∈ looked p n i, i - n < j) ↔ (searchDown p n i).isSome := by
  induction n generalizing i with
  | zero =>
    rw [searchDown, looked, List.forall_mem_singleton]
    simp
  | succ n ih =>
    rw [searchDown, looked, List.forall_mem_cons]
    split_ifs with hi
    · refine iff_of_true ⟨by omega, fun j hj => absurd hj List.not_mem_nil⟩ rfl
    · have hshift : i - 1 - (n : ℤ) = i - ((n + 1 : ℕ) : ℤ) := by omega
      rw [← ih, hshift]
      exact and_iff_right (by omega)

end SearchDown
