import Mathlib.Data.List.Basic
import Mathlib.Tactic.Common

/-!
# Reading a list in pieces

A stream is a list that is handed out from its front in pieces. `piece l pos n` is the
piece of at most `n` elements at position `pos`, and `Delivers l got pos` says that the
pieces handed out so far, put together, are what lies before `pos`: nothing is lost and
nothing comes twice, however the pieces are cut (`Delivers.read`).

A text is a stream cut into lines by a terminator. `firstLine p l` is the text up to the
first terminator, which belongs to the line.
-/

namespace Stream

variable {α : Type*}

/-! ## Pieces -/

/-- At most `n` elements from position `pos` on. -/
def piece (l : List α) (pos n : ℕ) : List α := (l.drop pos).take n

theorem length_piece (l : List α) (pos n : ℕ) :
    (piece l pos n).length = min n (l.length - pos) := by
  simp only [piece, List.length_take, List.length_drop]

theorem take_append_piece (l : List α) (pos n : ℕ) :
    l.take pos ++ piece l pos n = l.take (pos + n) := by
  rw [piece, List.take_add]

theorem piece_min (l : List α) (pos n : ℕ) :
    piece l pos (min n (l.length - pos)) = piece l pos n := by
  rw [piece, piece, ← List.length_drop, List.take_eq_take_iff]
  omega

/-- What has been handed out is everything before `pos`. -/
structure Delivers (l got : List α) (pos : ℕ) : Prop where
  got_eq : got = l.take pos
  pos_le : pos ≤ l.length

namespace Delivers

variable {l got : List α} {pos : ℕ}

theorem start (l : List α) : Delivers l [] 0 := ⟨by rw [List.take_zero], Nat.zero_le _⟩

theorem length_eq (h : Delivers l got pos) : got.length = pos := by
  rw [h.got_eq, List.length_take]
  exact Nat.min_eq_left h.pos_le

/-- The next piece continues what came before it. -/
theorem read (h : Delivers l got pos) (n : ℕ) :
    Delivers l (got ++ piece l pos n) (pos + (piece l pos n).length) := by
  have hlen := length_piece l pos n
  have hpos := h.pos_le
  constructor
  · rw [hlen, h.got_eq, ← take_append_piece, piece_min]
  · omega

end Delivers

/-! ## Lines -/

/-- The text up to the first terminator, and all of it if there is none. -/
def firstLine (p : α → Bool) : List α → List α
  | [] => []
  | a :: l => if p a then [a] else a :: firstLine p l

/-- A line is committed once it has its terminator. -/
def Committed (p : α → Bool) (l : List α) : Prop := ∃ a ∈ l, p a = true

instance (p : α → Bool) (l : List α) : Decidable (Committed p l) := by
  unfold Committed
  infer_instance

/-- One line and nothing else. -/
def IsLine (p : α → Bool) (l : List α) : Prop := Committed p l ∧ firstLine p l = l

instance [DecidableEq α] (p : α → Bool) (l : List α) : Decidable (IsLine p l) := by
  unfold IsLine
  infer_instance

variable {p : α → Bool} {l : List α}

theorem Committed.ne_nil (h : Committed p l) : l ≠ [] := by
  rintro rfl
  obtain ⟨a, ha, -⟩ := h
  cases ha

theorem Committed.of_dropLast (h : Committed p l.dropLast) : Committed p l := by
  obtain ⟨a, ha, hp⟩ := h
  exact ⟨a, List.dropLast_subset _ ha, hp⟩

/-- Behind a text only a terminator commits it. -/
theorem Committed.of_concat {a : α} (h : Committed p (l ++ [a])) (ha : p a = false) :
    Committed p l := by
  obtain ⟨b, hb, hp⟩ := h
  rcases List.mem_append.mp hb with hb | hb
  · exact ⟨b, hb, hp⟩
  · rw [List.mem_singleton.mp hb, ha] at hp
    cases hp

end Stream
