import Kernel391.Lib.Words
import Kernel391.Strings

/-!
# Strings as texts

The string at a pointer is the list of bytes before the first NUL. Memory in which a NUL
can be reached is `Terminated`, and there `strlen` finds the first one.
-/

namespace Kernel391

open Words

/-- The bytes of the string. -/
def text (s : Bytes) : List UInt8 := segment s 0 (strlen s)

/-- There is a NUL. -/
def Terminated (s : Bytes) : Prop := ∃ n < addressSpace, s n = 0

/-- Memory holds these bytes and a NUL. -/
def HoldsBytes (s : Bytes) (bytes : List UInt8) : Prop :=
  (∀ j (hj : j < bytes.length), s j = bytes[j]) ∧ s bytes.length = 0

section
variable {s s₁ s₂ : Bytes} {bytes : List UInt8}

@[simp] theorem text_length : (text s).length = strlen s := by
  rw [text, length_segment, Nat.sub_zero]

theorem text_getElem {j : ℕ} (hj : j < (text s).length) : (text s)[j] = s j := by
  simp only [text, getElem_segment, Nat.zero_add]

namespace Terminated

theorem strlen_lt (h : Terminated s) : strlen s < addressSpace := by
  obtain ⟨n, hn, hnul⟩ := h
  exact Nat.lt_of_le_of_lt (strlen_le hnul) hn

theorem nul (h : Terminated s) : s (strlen s) = 0 := by
  obtain ⟨n, hn, hnul⟩ := h
  have hend : (s n != 0) = false := by
    rw [hnul]
    rfl
  have hstop : (s (strlen s) != 0) = false :=
    scan_stop (p := (· != 0)) (Nat.zero_le n) (by omega) hend
  simpa using hstop

/-- Terminated memory holds its text. -/
theorem holds (h : Terminated s) : HoldsBytes s (text s) := by
  refine ⟨fun j hj => (text_getElem hj).symm, ?_⟩
  rw [text_length]
  exact h.nul

end Terminated

/-- And what it holds is its text. -/
theorem HoldsBytes.text_eq (h : HoldsBytes s bytes) (hne : ∀ b ∈ bytes, b ≠ 0)
    (hlen : bytes.length < addressSpace) : text s = bytes := by
  have hstrlen : strlen s = bytes.length := by
    refine strlen_eq hlen (fun j hj => ?_) h.2
    rw [h.1 j hj]
    exact hne _ (List.getElem_mem hj)
  apply List.ext_getElem
  · rw [text_length, hstrlen]
  · intro j hj hj'
    rw [text_getElem hj, h.1 j hj']

/-- The bytes up to the first NUL are all that counts. -/
theorem strlen_congr (h : Terminated s₁) (heq : ∀ j ≤ strlen s₁, s₁ j = s₂ j) :
    strlen s₂ = strlen s₁ := by
  refine strlen_eq h.strlen_lt (fun j hj => ?_) ?_
  · rw [← heq j (Nat.le_of_lt hj)]
    exact ne_zero_of_lt_strlen hj
  · rw [← heq _ (Nat.le_refl _)]
    exact h.nul

theorem text_congr (h : Terminated s₁) (heq : ∀ j ≤ strlen s₁, s₁ j = s₂ j) :
    text s₂ = text s₁ := by
  unfold text
  rw [strlen_congr h heq]
  exact segment_congr fun j _ hj => (heq j (Nat.le_of_lt hj)).symm

/-- A copy has the same text, whatever it is copied over. -/
theorem text_strcpy (h : Terminated s) (dest : Bytes) : text (strcpy dest s) = text s := by
  have hcopy : ∀ j ≤ strlen s, s j = strcpy dest s j := by
    intro j hj
    unfold strcpy
    by_cases hlt : j < strlen s
    · rw [if_pos hlt]
    · rw [if_neg hlt, if_pos (by omega), show j = strlen s by omega]
      exact h.nul
  exact text_congr h hcopy

end

end Kernel391
