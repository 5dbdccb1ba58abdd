import Mathlib

/-!
# Taking turns in a ring

Places `0 … n-1` in a ring, and a pointer that moves on to the next place that asks for a turn.
However the places come and go, one that keeps asking is never passed over: every move brings
the pointer nearer to it (`IsNext.ahead_lt`).
-/

namespace RoundRobin

variable {n : ℕ}

/-- How far place `t` is ahead of the pointer at `r`. -/
def ahead (r t : Fin n) : ℕ := (t - r).val

theorem ahead_lt (r t : Fin n) : ahead r t < n := (t - r).isLt

theorem ahead_pos [NeZero n] {r t : Fin n} (h : r ≠ t) : 0 < ahead r t := by
  rw [Nat.pos_iff_ne_zero]
  intro h0
  have hsub : t - r = 0 := Fin.ext (h0.trans (Fin.val_zero n).symm)
  exact h (sub_eq_zero.mp hsub).symm

/-- The pointer moves from `r` to `r'`: the first place behind `r` that asks for a turn. -/
structure IsNext (asks : Fin n → Prop) (r r' : Fin n) : Prop where
  asking : asks r'
  ne : r' ≠ r
  first : ∀ t, asks t → t ≠ r → ahead r r' ≤ ahead r t

/-- A place that asks comes nearer with every move. -/
theorem IsNext.ahead_lt [NeZero n] {asks : Fin n → Prop} {r r' t : Fin n}
    (h : IsNext asks r r') (ht : asks t) (hne : t ≠ r) : ahead r' t < ahead r t := by
  have hfirst : (r' - r).val ≤ (t - r).val := h.first t ht hne
  have hpos : 0 < (r' - r).val := ahead_pos h.ne.symm
  have hsub : t - r' = (t - r) - (r' - r) := (sub_sub_sub_cancel_right t r' r).symm
  unfold ahead
  rw [hsub, Fin.sub_val_of_le (Fin.le_def.mpr hfirst)]
  omega

end RoundRobin
