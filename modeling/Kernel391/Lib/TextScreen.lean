import Mathlib.Data.Fin.Basic
import Mathlib.Logic.Function.Basic
import Mathlib.Tactic.Common

/-!
# A scrolling text screen

A `Page` is a grid of characters with a cursor on it. `Page.emit` prints one character the
way a text terminal does: a line break goes to the next row, any other character is stored
at the cursor, which then goes one column on, and from the last row the next one is reached
by moving everything up (`Page.descend`).

Terminals may also scroll early, when the cursor stands on the last cell and before anything
is printed there. `Page.makeRoom` is that early scroll, and it makes no difference
(`Page.emit_makeRoom`), because storing a character commutes with moving up (`up_put`).
-/

namespace TextScreen

variable {rows cols : ℕ} {α : Type*}

/-! ## Grids -/

/-- All rows one up, and the last one blank. -/
def up (blank : α) (char : Fin rows → Fin cols → α) : Fin rows → Fin cols → α := fun r c =>
  if h : r.val + 1 < rows then char ⟨r + 1, h⟩ c else blank

/-- Store a character. -/
def put (row : Fin rows) (col : Fin cols) (b : α) (char : Fin rows → Fin cols → α) :
    Fin rows → Fin cols → α := fun r c =>
  if r = row ∧ c = col then b else char r c

/-- What is stored before moving up is found one row higher afterwards. -/
theorem up_put (blank b : α) (char : Fin rows → Fin cols → α) {row above : Fin rows}
    (col : Fin cols) (h : above.val + 1 = row.val) :
    up blank (put row col b char) = put above col b (up blank char) := by
  ext r c
  have hrow := row.isLt
  simp only [up, put]
  by_cases hr : r.val + 1 < rows
  · rw [dif_pos hr, dif_pos hr]
    have hiff : (⟨r + 1, hr⟩ : Fin rows) = row ↔ r = above := by
      rw [Fin.ext_iff, Fin.ext_iff]
      show r.val + 1 = row.val ↔ r.val = above.val
      omega
    simp only [hiff]
  · have hne : r ≠ above := by
      rw [ne_eq, Fin.ext_iff]
      omega
    rw [dif_neg hr, dif_neg hr, if_neg fun hboth => hne hboth.1]

/-! ## Pages -/

@[ext] structure Page (rows cols : ℕ) (α : Type*) where
  char : Fin rows → Fin cols → α
  row : Fin rows
  col : Fin cols

namespace Page

/-- Column 0 of the next row; from the last row, everything moves up instead. -/
def descend (blank : α) (char : Fin rows → Fin cols → α) (row : Fin rows) (hcols : 0 < cols) :
    Page rows cols α :=
  if h : row.val + 1 < rows then { char := char, row := ⟨row + 1, h⟩, col := ⟨0, hcols⟩ }
  else { char := up blank char, row := row, col := ⟨0, hcols⟩ }

def newline (blank : α) (p : Page rows cols α) : Page rows cols α :=
  descend blank p.char p.row p.col.pos

/-- Store a character at the cursor and go one column on, in the next row if the row ends. -/
def write (blank b : α) (p : Page rows cols α) : Page rows cols α :=
  if h : p.col.val + 1 < cols then
    { char := put p.row p.col b p.char, row := p.row, col := ⟨p.col + 1, h⟩ }
  else descend blank (put p.row p.col b p.char) p.row p.col.pos

section
variable (isBreak : α → Prop) [DecidablePred isBreak]

/-- Print one character. -/
def emit (blank b : α) (p : Page rows cols α) : Page rows cols α :=
  if isBreak b then p.newline blank else p.write blank b

/-- Print a string. -/
def emitAll (blank : α) (bs : List α) (p : Page rows cols α) : Page rows cols α :=
  bs.foldl (fun p b => p.emit isBreak blank b) p

theorem emitAll_cons (blank b : α) (bs : List α) (p : Page rows cols α) :
    p.emitAll isBreak blank (b :: bs) = (p.emit isBreak blank b).emitAll isBreak blank bs :=
  List.foldl_cons ..

end

/-! ## Scrolling early -/

/-- The cursor stands on the last cell. -/
def AtEnd (p : Page rows cols α) : Prop := p.row.val + 1 = rows ∧ p.col.val + 1 = cols

instance (p : Page rows cols α) : Decidable p.AtEnd := inferInstanceAs (Decidable (_ ∧ _))

/-- On the last cell, move everything up and the cursor with it. -/
def makeRoom (blank : α) (p : Page rows cols α) : Page rows cols α :=
  if p.AtEnd then
    { char := up blank p.char, row := ⟨p.row - 1, by omega⟩, col := p.col }
  else p

theorem makeRoom_of_not_atEnd {blank : α} {p : Page rows cols α} (h : ¬ p.AtEnd) :
    p.makeRoom blank = p := if_neg h

/-- From the last row, moving up first and then going down a row comes to the same. -/
theorem descend_last {blank : α} {char : Fin rows → Fin cols → α} {row above : Fin rows}
    {hcols : 0 < cols} (hlast : row.val + 1 = rows) (h : above.val + 1 = row.val) :
    descend blank char row hcols = descend blank (up blank char) above hcols := by
  unfold descend
  rw [dif_neg (by omega), dif_pos (by omega)]
  ext1
  · rfl
  · apply Fin.ext
    show row.val = above.val + 1
    omega
  · rfl

variable {blank b : α} {p : Page rows cols α}

theorem newline_makeRoom (hrows : 2 ≤ rows) :
    (p.makeRoom blank).newline blank = p.newline blank := by
  by_cases hend : p.AtEnd
  · have hrow : (⟨p.row - 1, by omega⟩ : Fin rows).val + 1 = p.row.val := by
      have hlast := hend.1
      show p.row.val - 1 + 1 = p.row.val
      omega
    unfold makeRoom newline
    rw [if_pos hend, descend_last hend.1 hrow]
  · rw [makeRoom_of_not_atEnd hend]

theorem write_makeRoom (hrows : 2 ≤ rows) :
    (p.makeRoom blank).write blank b = p.write blank b := by
  by_cases hend : p.AtEnd
  · have hrow : (⟨p.row - 1, by omega⟩ : Fin rows).val + 1 = p.row.val := by
      have hlast := hend.1
      show p.row.val - 1 + 1 = p.row.val
      omega
    have hcol : ¬ p.col.val + 1 < cols := by
      have := hend.2
      omega
    unfold makeRoom write
    rw [if_pos hend, dif_neg hcol, dif_neg hcol, descend_last hend.1 hrow,
      up_put blank b p.char p.col hrow]
  · rw [makeRoom_of_not_atEnd hend]

/-- Scrolling early makes no difference. -/
theorem emit_makeRoom (isBreak : α → Prop) [DecidablePred isBreak] (hrows : 2 ≤ rows) :
    (p.makeRoom blank).emit isBreak blank b = p.emit isBreak blank b := by
  unfold emit
  rw [newline_makeRoom hrows, write_makeRoom hrows]

/-- The early scroll leaves the last cell. -/
theorem makeRoom_not_atEnd (hrows : 2 ≤ rows) : ¬ (p.makeRoom blank).AtEnd := by
  unfold makeRoom
  split_ifs with hend
  · intro hagain
    have hrow : p.row.val - 1 + 1 = rows := hagain.1
    have := hend.1
    omega
  · exact hend

end Page

end TextScreen
