import Mathlib.Algebra.Group.Int.Defs
import Mathlib.Algebra.GroupWithZero.Nat
import Mathlib.Data.Int.Basic
import Mathlib.Tactic.Common

/-!
# The string routines of `lib.c`

A C string is memory read from a pointer on: a function from offsets to bytes, of which
the bytes up to the first NUL count. Every loop of the library that walks such a string
is a `scan`, which stops at the first byte that fails a test. The address space bounds
the walk, so `scan` is structural on that bound.
-/

namespace Kernel391

/-- Memory seen through a pointer: the byte at each offset. -/
abbrev Bytes := ℕ → UInt8

/-- Number of byte addresses of the machine. -/
def addressSpace : ℕ := 2 ^ 32

/-- An `int32_t` used as an unsigned number. -/
def toUnsigned (n : ℤ) : ℕ := (n % addressSpace).toNat

/-- First offset from `i` on whose byte fails `p`, looking at most `fuel` bytes far. -/
def scanFuel (p : UInt8 → Bool) (s : Bytes) : ℕ → ℕ → ℕ
  | 0, i => i
  | fuel + 1, i => if p (s i) then scanFuel p s fuel (i + 1) else i

/-- `while (p(s[i])) i++;` -/
def scan (p : UInt8 → Bool) (s : Bytes) (i : ℕ) : ℕ := scanFuel p s addressSpace i

def strlen (s : Bytes) : ℕ := scan (· != 0) s 0

/-- The loop of `strncmp` at index `i`, with `n` bytes left to compare. -/
def strncmpFrom (s1 s2 : Bytes) : ℕ → ℕ → ℤ
  | 0, _ => 0
  | n + 1, i =>
    if s1 i ≠ s2 i ∨ s1 i = 0 then (s1 i).toInt8.toInt - (s2 i).toInt8.toInt
    else strncmpFrom s1 s2 n (i + 1)

def strncmp (s1 s2 : Bytes) (n : ℕ) : ℤ := strncmpFrom s1 s2 n 0

def strcpy (dest src : Bytes) : Bytes := fun i =>
  if i < strlen src then src i else if i = strlen src then 0 else dest i

/-- The `n` bytes `strncpy` stores: the string, padded with NULs. -/
def strncpy (src : Bytes) (n : ℕ) : List UInt8 :=
  (List.range n).map fun i => if i < strlen src then src i else 0

/-- The memory at a string literal: its characters, a NUL, and whatever is stored after
it. -/
def literal (chars : List Char) (after : Bytes) : Bytes := fun i =>
  match chars[i]? with
  | some c => c.toUInt8
  | none => if i = chars.length then 0 else after i

/-- Memory `s` starts with `chars` and a NUL. -/
def HoldsString (s : Bytes) (chars : List Char) : Prop :=
  (∀ i c, chars[i]? = some c → s i = c.toUInt8) ∧ s chars.length = 0

/-- A number that is not negative is the same unsigned. -/
theorem toUnsigned_eq {n : ℤ} (h0 : 0 ≤ n) (hlt : n < 2 ^ 31) : (toUnsigned n : ℤ) = n := by
  unfold toUnsigned addressSpace
  rw [Int.emod_eq_of_lt h0 (by omega)]
  exact Int.toNat_of_nonneg h0

/-! ## What `scan` finds -/

theorem scanFuel_eq {p : UInt8 → Bool} {s : Bytes} {n : ℕ} (hstop : p (s n) = false) :
    ∀ {fuel i : ℕ}, i ≤ n → n < i + fuel → (∀ j, i ≤ j → j < n → p (s j) = true) →
      scanFuel p s fuel i = n := by
  intro fuel
  induction fuel with
  | zero => intro i hle hlt _; omega
  | succ fuel ih =>
    intro i hle hlt hrun
    rw [scanFuel]
    -- the byte that fails the test, or one more step towards it
    by_cases hi : i = n
    · subst hi
      rw [hstop]; rfl
    · rw [if_pos (hrun i le_rfl (by omega))]
      exact ih (by omega) (by omega) fun j hj hjn => hrun j (by omega) hjn

/-- The scan stops at the first byte that fails the test. -/
theorem scan_eq {p : UInt8 → Bool} {s : Bytes} {i n : ℕ} (hin : i ≤ n)
    (hn : n < i + addressSpace) (hrun : ∀ j, i ≤ j → j < n → p (s j) = true)
    (hstop : p (s n) = false) : scan p s i = n :=
  scanFuel_eq hstop hin hn hrun

theorem strlen_eq {s : Bytes} {n : ℕ} (hn : n < addressSpace) (hrun : ∀ j < n, s j ≠ 0)
    (hstop : s n = 0) : strlen s = n := by
  refine scan_eq (Nat.zero_le n) (by omega) (fun j _ hj => ?_) ?_
  · simpa using hrun j hj
  · simp [hstop]

/-- The string at a literal has the literal's length, when it is a proper one. -/
theorem HoldsString.strlen_eq {s : Bytes} {chars : List Char} (h : HoldsString s chars)
    (hlen : chars.length < addressSpace) (hnz : ∀ c ∈ chars, c.toUInt8 ≠ 0) :
    strlen s = chars.length := by
  refine Kernel391.strlen_eq hlen (fun j hj => ?_) h.2
  rw [h.1 j chars[j] (List.getElem?_eq_getElem hj)]
  exact hnz _ (List.getElem_mem hj)

theorem literal_holds (chars : List Char) (after : Bytes) :
    HoldsString (literal chars after) chars := by
  refine ⟨fun i c hc => ?_, ?_⟩
  · simp only [literal, hc]
  · simp [literal]

/-- Every byte the scan passes has passed the test. -/
theorem scanFuel_run {p : UInt8 → Bool} {s : Bytes} :
    ∀ {fuel i j : ℕ}, i ≤ j → j < scanFuel p s fuel i → p (s j) = true := by
  intro fuel
  induction fuel with
  | zero =>
    intro i j hij hj
    rw [scanFuel] at hj
    omega
  | succ fuel ih =>
    intro i j hij hj
    rw [scanFuel] at hj
    split_ifs at hj with hp
    · by_cases hi : j = i
      · rw [hi]
        exact hp
      · exact ih (by omega) hj
    · omega

theorem le_scanFuel {p : UInt8 → Bool} {s : Bytes} {fuel i : ℕ} : i ≤ scanFuel p s fuel i := by
  induction fuel generalizing i with
  | zero => exact Nat.le_refl i
  | succ fuel ih =>
    rw [scanFuel]
    split_ifs
    · exact Nat.le_of_succ_le ih
    · exact Nat.le_refl i

theorem scanFuel_stop {p : UInt8 → Bool} {s : Bytes} {n fuel i : ℕ} (hin : i ≤ n)
    (hn : n < i + fuel) (hstop : p (s n) = false) : p (s (scanFuel p s fuel i)) = false := by
  induction fuel generalizing i with
  | zero => omega
  | succ fuel ih =>
    rw [scanFuel]
    split_ifs with hp
    · refine ih ?_ (by omega)
      by_contra hlt
      rw [show n = i by omega, hp] at hstop
      cases hstop
    · exact Bool.not_eq_true _ ▸ hp

section
variable {p : UInt8 → Bool} {s : Bytes} {i j n : ℕ}

theorem le_scan : i ≤ scan p s i := le_scanFuel

theorem scan_run (hij : i ≤ j) (hj : j < scan p s i) : p (s j) = true := scanFuel_run hij hj

/-- The scan gets no further than a byte that fails the test. -/
theorem scan_le (hin : i ≤ n) (hstop : p (s n) = false) : scan p s i ≤ n := by
  by_contra hlt
  rw [scan_run hin (Nat.lt_of_not_le hlt)] at hstop
  cases hstop

/-- And ends at one, if there is one within reach. -/
theorem scan_stop (hin : i ≤ n) (hn : n < i + addressSpace) (hstop : p (s n) = false) :
    p (s (scan p s i)) = false :=
  scanFuel_stop hin hn hstop

end

theorem ne_zero_of_lt_strlen {s : Bytes} {j : ℕ} (h : j < strlen s) : s j ≠ 0 := by
  have hrun := scanFuel_run (Nat.zero_le j) h
  simpa using hrun

theorem strlen_le {s : Bytes} {n : ℕ} (h : s n = 0) : strlen s ≤ n := by
  by_contra hlt
  exact ne_zero_of_lt_strlen (Nat.lt_of_not_le hlt) h

/-! ## What `strncmp` compares -/

theorem strncmpFrom_eq_zero {s1 s2 : Bytes} {n i : ℕ}
    (h : ∀ j, i ≤ j → j < i + n → s1 j = s2 j) : strncmpFrom s1 s2 n i = 0 := by
  induction n generalizing i with
  | zero => rfl
  | succ n ih =>
    rw [strncmpFrom]
    split_ifs
    · rw [h i le_rfl (by omega), sub_self]
    · exact ih fun j hj hlt => h j (by omega) (by omega)

/-- Equal characters compare equal. -/
theorem strncmp_eq_zero {s1 s2 : Bytes} {n : ℕ} (h : ∀ j < n, s1 j = s2 j) :
    strncmp s1 s2 n = 0 :=
  strncmpFrom_eq_zero fun j _ hj => h j (by omega)

theorem eq_of_strncmpFrom {s1 s2 : Bytes} {n i : ℕ}
    (hne : ∀ j, i ≤ j → j < i + n → s1 j ≠ 0 ∨ s2 j ≠ 0) (h : strncmpFrom s1 s2 n i = 0) :
    ∀ j, i ≤ j → j < i + n → s1 j = s2 j := by
  induction n generalizing i with
  | zero =>
    intro j hij hj
    omega
  | succ n ih =>
    rw [strncmpFrom] at h
    have hend : (s1 i).toInt8.toInt - (s2 i).toInt8.toInt = 0 → s1 i = s2 i := by
      intro hsub
      have hint : (s1 i).toInt8 = (s2 i).toInt8 := Int8.toInt_inj.mp (by omega)
      rw [← UInt8.toUInt8_toInt8 (s1 i), hint, UInt8.toUInt8_toInt8]
    split_ifs at h with hstop
    · -- a difference, or a NUL in both strings, which have none
      have heq := hend h
      rcases hstop with hdiff | hnul
      · exact absurd heq hdiff
      · rcases hne i le_rfl (by omega) with h1 | h2
        · exact absurd hnul h1
        · exact absurd (heq.symm.trans hnul) h2
    · have heq : s1 i = s2 i := by
        by_contra hdiff
        exact hstop (Or.inl hdiff)
      intro j hij hj
      by_cases hi : j = i
      · rw [hi]
        exact heq
      · exact ih (fun j hj hlt => hne j (by omega) (by omega)) h j (by omega) (by omega)

/-- If the comparison does not end at a NUL, the strings agree. -/
theorem eq_of_strncmp {s1 s2 : Bytes} {n : ℕ} (hne : ∀ j < n, s1 j ≠ 0 ∨ s2 j ≠ 0)
    (h : strncmp s1 s2 n = 0) {j : ℕ} (hj : j < n) : s1 j = s2 j :=
  eq_of_strncmpFrom (fun j _ hlt => hne j (by omega)) h j (Nat.zero_le j) (by omega)

end Kernel391
