import Mathlib.Data.List.Basic
import Mathlib.Tactic.Common

/-!
# Words of a text

A text is a list, and its words are the maximal runs of elements that are no separators:
`firstWord sep l` is the first one, `afterFirst sep l` the text behind it and
`secondWord sep l` the first word of that.

A program that looks for words usually walks an array with an index. `segment f a b` is the
list of the values at the indices from `a` up to `b`, and `WordAt` says what two such walks have
found, so that it is a word (`WordAt.firstWord_eq`, `WordAt.afterFirst_eq`).
-/

namespace Words

variable {α : Type*}

/-! ## Words -/

/-- The first maximal run without separators, empty if there is none. -/
def firstWord (sep : α → Bool) (l : List α) : List α :=
  (l.dropWhile sep).takeWhile fun a => !sep a

/-- What comes behind it, separators first. -/
def afterFirst (sep : α → Bool) (l : List α) : List α :=
  (l.dropWhile sep).dropWhile fun a => !sep a

def secondWord (sep : α → Bool) (l : List α) : List α := firstWord sep (afterFirst sep l)

/-! ## Segments -/

/-- The values from index `a` on, up to `b`. -/
def segment (f : ℕ → α) (a b : ℕ) : List α := (List.range (b - a)).map fun j => f (a + j)

section
variable {f g : ℕ → α} {p sep : α → Bool} {a b c s e : ℕ}

@[simp] theorem length_segment : (segment f a b).length = b - a := by
  rw [segment, List.length_map, List.length_range]

@[simp] theorem getElem_segment {j : ℕ} (hj : j < (segment f a b).length) :
    (segment f a b)[j] = f (a + j) := by
  simp only [segment, List.getElem_map, List.getElem_range]

theorem segment_of_le (h : b ≤ a) : segment f a b = [] := by
  rw [segment, Nat.sub_eq_zero_of_le h, List.range_zero, List.map_nil]

theorem mem_segment {x : α} : x ∈ segment f a b ↔ ∃ j, a ≤ j ∧ j < b ∧ f j = x := by
  unfold segment
  rw [List.mem_map]
  constructor
  · rintro ⟨j, hj, rfl⟩
    have hlt := List.mem_range.mp hj
    exact ⟨a + j, by omega, by omega, rfl⟩
  · rintro ⟨j, ha, hb, rfl⟩
    refine ⟨j - a, List.mem_range.mpr (by omega), ?_⟩
    rw [Nat.add_sub_cancel' ha]

theorem segment_congr (h : ∀ j, a ≤ j → j < b → f j = g j) : segment f a b = segment g a b := by
  apply List.ext_getElem
  · rw [length_segment, length_segment]
  · intro j hj hj'
    rw [length_segment] at hj
    rw [getElem_segment, getElem_segment, h (a + j) (by omega) (by omega)]

/-- Two segments side by side. -/
theorem segment_append (hac : a ≤ c) (hcb : c ≤ b) :
    segment f a c ++ segment f c b = segment f a b := by
  apply List.ext_getElem
  · rw [List.length_append, length_segment, length_segment, length_segment]
    omega
  · intro j hj hj'
    rw [getElem_segment, List.getElem_append]
    split_ifs with hleft
    · rw [getElem_segment]
    · rw [length_segment] at hleft
      rw [getElem_segment, length_segment, show c + (j - (c - a)) = a + j by omega]

theorem segment_eq_cons (h : c < b) : segment f c b = f c :: segment f (c + 1) b := by
  rw [← segment_append (Nat.le_succ c) h]
  rw [segment, Nat.succ_sub (Nat.le_refl c), Nat.sub_self]
  rfl

/-- A run that ends at `c`. -/
theorem takeWhile_segment (hac : a ≤ c) (hcb : c ≤ b) (hrun : ∀ j, a ≤ j → j < c → p (f j) = true)
    (hstop : c < b → p (f c) = false) : (segment f a b).takeWhile p = segment f a c := by
  have hall : ∀ x ∈ segment f a c, p x = true := by
    intro x hx
    obtain ⟨j, ha, hc, rfl⟩ := mem_segment.mp hx
    exact hrun j ha hc
  rw [← segment_append hac hcb, List.takeWhile_append_of_pos hall]
  rcases Nat.eq_or_lt_of_le hcb with rfl | hlt
  · rw [segment_of_le (Nat.le_refl c), List.takeWhile_nil, List.append_nil]
  · rw [segment_eq_cons hlt, List.takeWhile_cons, hstop hlt]
    simp

theorem dropWhile_segment (hac : a ≤ c) (hcb : c ≤ b) (hrun : ∀ j, a ≤ j → j < c → p (f j) = true)
    (hstop : c < b → p (f c) = false) : (segment f a b).dropWhile p = segment f c b := by
  have hall : ∀ x ∈ segment f a c, p x = true := by
    intro x hx
    obtain ⟨j, ha, hc, rfl⟩ := mem_segment.mp hx
    exact hrun j ha hc
  rw [← segment_append hac hcb, List.dropWhile_append_of_pos hall]
  rcases Nat.eq_or_lt_of_le hcb with rfl | hlt
  · rw [segment_of_le (Nat.le_refl c), List.dropWhile_nil]
  · rw [segment_eq_cons hlt, List.dropWhile_cons, hstop hlt]
    simp

/-! ## Words by their indices -/

/-- Separators up to `s`, and none from there up to `e`. -/
structure WordAt (sep : α → Bool) (f : ℕ → α) (a b s e : ℕ) : Prop where
  start_le : a ≤ s
  le_stop : s ≤ e
  stop_le : e ≤ b
  before : ∀ j, a ≤ j → j < s → sep (f j) = true
  within : ∀ j, s ≤ j → j < e → sep (f j) = false
  /-- The word is not empty unless the text ends, and ends at a separator. -/
  first : s < b → sep (f s) = false
  behind : e < b → sep (f e) = true

namespace WordAt

theorem dropWhile (h : WordAt sep f a b s e) :
    (segment f a b).dropWhile sep = segment f s b :=
  dropWhile_segment h.start_le (Nat.le_trans h.le_stop h.stop_le) h.before h.first

/-- The first word lies from `s` up to `e`. -/
theorem firstWord_eq (h : WordAt sep f a b s e) :
    firstWord sep (segment f a b) = segment f s e := by
  rw [firstWord, h.dropWhile]
  refine takeWhile_segment h.le_stop h.stop_le (fun j hj hje => ?_) fun he => ?_
  · rw [h.within j hj hje]
    rfl
  · rw [h.behind he]
    rfl

theorem afterFirst_eq (h : WordAt sep f a b s e) :
    afterFirst sep (segment f a b) = segment f e b := by
  rw [afterFirst, h.dropWhile]
  refine dropWhile_segment h.le_stop h.stop_le (fun j hj hje => ?_) fun he => ?_
  · rw [h.within j hj hje]
    rfl
  · rw [h.behind he]
    rfl

end WordAt

end

end Words
