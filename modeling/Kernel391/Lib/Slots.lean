import Mathlib.Data.List.FinRange
import Mathlib.Tactic.Common

/-!
# The first free slot

A table of `n` slots is searched from its low end for the first slot that passes a test.
-/

namespace Slots

variable {n : ℕ} {p : Fin n → Bool} {i : Fin n}

/-- The search finds the smallest slot that passes. -/
theorem find?_eq_some_iff :
    (List.finRange n).find? p = some i ↔ p i = true ∧ ∀ j < i, p j = false := by
  rw [List.find?_eq_some_iff_getElem]
  constructor
  · rintro ⟨hp, k, hk, hget, hbefore⟩
    -- position and slot agree in `finRange`
    rw [List.getElem_finRange] at hget
    refine ⟨hp, fun j hj => ?_⟩
    have hlt : j.val < k := by
      have hval : i.val = k := by
        rw [← hget]
        rfl
      have hji : j.val < i.val := hj
      omega
    have hfail := hbefore j.val hlt
    rw [List.getElem_finRange] at hfail
    simpa using hfail
  · rintro ⟨hp, hbefore⟩
    have hk : i.val < (List.finRange n).length := by
      rw [List.length_finRange]
      exact i.isLt
    refine ⟨hp, i.val, hk, ?_, fun j hj => ?_⟩
    · rw [List.getElem_finRange]
      rfl
    · rw [List.getElem_finRange]
      simpa using hbefore ⟨j, by omega⟩ hj

theorem find?_eq_none_iff : (List.finRange n).find? p = none ↔ ∀ j, p j = false := by
  simp only [List.find?_eq_none, List.mem_finRange, true_implies, Bool.not_eq_true]

end Slots
