import Mathlib.Data.BitVec
import Mathlib.Tactic.Common

/-!
# Bit fields of a machine word

A C bit field is a range of bits of a word. `BitField.get` and `BitField.set` read and assign
one, and the two lemmas `get_set_self` and `get_set_of_disjoint` say what a read sees
after an assignment. Overlapping views of one word (a C union) are just two sets of
fields over the same bits, so the same two lemmas decide which view sees what.
-/

/-- Bits `lo`, …, `lo + len - 1` of a word. -/
structure BitField where
  lo : ℕ
  len : ℕ
deriving DecidableEq

namespace BitField

variable {w : ℕ}

/-- The ones of the field, at the bottom of the word. -/
def ones (w : ℕ) (f : BitField) : BitVec w := BitVec.ofNat w (2 ^ f.len - 1)

/-- The value of the field. -/
def get (f : BitField) (x : BitVec w) : ℕ := ((x >>> f.lo) &&& f.ones w).toNat

/-- Assign the field; as in C, the value is truncated to the field's width. -/
def set (f : BitField) (x : BitVec w) (v : ℕ) : BitVec w :=
  (x &&& ~~~(f.ones w <<< f.lo)) ||| ((BitVec.ofNat w v &&& f.ones w) <<< f.lo)

/-- Fields that share no bit. -/
def Disjoint (f g : BitField) : Prop := f.lo + f.len ≤ g.lo ∨ g.lo + g.len ≤ f.lo

instance (f g : BitField) : Decidable (Disjoint f g) := by unfold Disjoint; infer_instance

theorem getLsbD_ones (f : BitField) (i : ℕ) :
    (f.ones w).getLsbD i = (decide (i < w) && decide (i < f.len)) := by
  rw [ones, BitVec.getLsbD_ofNat, Nat.testBit_two_pow_sub_one]

theorem getLsbD_set (f : BitField) (x : BitVec w) (v i : ℕ) (hi : i < w) :
    (f.set x v).getLsbD i =
      if f.lo ≤ i ∧ i < f.lo + f.len then v.testBit (i - f.lo) else x.getLsbD i := by
  have hlt : i - f.lo < w := by omega
  simp only [set, BitVec.getLsbD_or, BitVec.getLsbD_and, BitVec.getLsbD_not,
    BitVec.getLsbD_shiftLeft, getLsbD_ones, BitVec.getLsbD_ofNat, hi, hlt]
  by_cases h1 : f.lo ≤ i
  · have h2 : ¬ i < f.lo := by omega
    by_cases h3 : i < f.lo + f.len
    · have h4 : i - f.lo < f.len := by omega
      simp [h1, h2, h3, h4]
    · have h4 : ¬ i - f.lo < f.len := by omega
      simp [h2, h3, h4]
  · have h2 : i < f.lo := by omega
    simp [h1, h2]

theorem testBit_get (f : BitField) (x : BitVec w) (i : ℕ) :
    (f.get x).testBit i = (decide (i < f.len) && x.getLsbD (f.lo + i)) := by
  rw [get, BitVec.testBit_toNat, BitVec.getLsbD_and, BitVec.getLsbD_ushiftRight, getLsbD_ones]
  by_cases hi : i < w
  · simp [hi, Bool.and_comm]
  · have hge : w ≤ f.lo + i := by omega
    simp [hi, BitVec.getLsbD_of_ge x _ hge]

/-- Reading back the field just assigned gives the value, truncated to the field. -/
theorem get_set_self (f : BitField) (x : BitVec w) (v : ℕ) (hw : f.lo + f.len ≤ w) :
    f.get (f.set x v) = v % 2 ^ f.len := by
  apply Nat.eq_of_testBit_eq
  intro i
  rw [testBit_get, Nat.testBit_mod_two_pow]
  by_cases hi : i < f.len
  · have hin : f.lo + i < w := by omega
    have hsub : f.lo + i - f.lo = i := by omega
    rw [getLsbD_set _ _ _ _ hin, if_pos (by omega), hsub]
  · simp [hi]

/-- Assigning a field leaves every disjoint field alone. -/
theorem get_set_of_disjoint (f g : BitField) (x : BitVec w) (v : ℕ) (h : Disjoint f g) :
    f.get (g.set x v) = f.get x := by
  apply Nat.eq_of_testBit_eq
  intro i
  rw [testBit_get, testBit_get]
  by_cases hi : i < f.len
  · by_cases hin : f.lo + i < w
    · rw [getLsbD_set _ _ _ _ hin, if_neg]
      rcases h with h | h <;> omega
    · have hge : w ≤ f.lo + i := by omega
      rw [BitVec.getLsbD_of_ge _ _ hge, BitVec.getLsbD_of_ge _ _ hge]
  · simp [hi]

end BitField
