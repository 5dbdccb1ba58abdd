import Mathlib.Algebra.GroupWithZero.Nat
import Mathlib.Data.Nat.Basic
import Mathlib.Tactic.Common

/-!
# Ranges of addresses

The bytes of a buffer lie at consecutive addresses, which wrap around at the end of the
address space.
-/

namespace AddressRange

variable {w lo hi n : ℕ} {ptr : BitVec w}

/-- The addresses of `n` bytes from `ptr` on. -/
def addresses (ptr : BitVec w) (n : ℕ) : List ℕ :=
  (List.range n).map fun j => (ptr + BitVec.ofNat w j).toNat

theorem mem_addresses {a : ℕ} :
    a ∈ addresses ptr n ↔ ∃ j < n, (ptr + BitVec.ofNat w j).toNat = a := by
  simp only [addresses, List.mem_map, List.mem_range]

/-- The bytes lie within a region that ends before the address space does if there are none,
or the region holds the first and there is room for the others behind it. -/
theorem forall_mem_addresses (hhi : hi < 2 ^ w) :
    (∀ a ∈ addresses ptr n, lo ≤ a ∧ a < hi) ↔ n = 0 ∨ lo ≤ ptr.toNat ∧ ptr.toNat + n ≤ hi := by
  have hptr := ptr.isLt
  constructor
  · intro h
    rcases Nat.eq_zero_or_pos n with hn | hn
    · exact Or.inl hn
    have hfirst := h _ (mem_addresses.mpr ⟨0, hn, rfl⟩)
    rw [BitVec.toNat_add, BitVec.toNat_ofNat, Nat.zero_mod, Nat.add_zero,
      Nat.mod_eq_of_lt hptr] at hfirst
    refine Or.inr ⟨hfirst.1, ?_⟩
    by_contra hend
    -- the byte at the end of the region
    have hlast := (h _ (mem_addresses.mpr ⟨hi - ptr.toNat, by omega, rfl⟩)).2
    rw [BitVec.toNat_add, BitVec.toNat_ofNat, Nat.add_mod_mod,
      show ptr.toNat + (hi - ptr.toNat) = hi by omega, Nat.mod_eq_of_lt hhi] at hlast
    exact Nat.lt_irrefl hi hlast
  · intro h a ha
    obtain ⟨j, hj, rfl⟩ := mem_addresses.mp ha
    rcases h with hn | ⟨hlo, hend⟩
    · omega
    · rw [BitVec.toNat_add, BitVec.toNat_ofNat, Nat.add_mod_mod, Nat.mod_eq_of_lt (by omega)]
      omega

end AddressRange
