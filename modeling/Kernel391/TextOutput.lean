import Kernel391.Lib.TextScreen
import Kernel391.Terminals

/-!
# Output as a text screen

What `putc` and `putc_term` do to a screen, seen as 25 rows of 80 characters: they are the
text terminal of `TextScreen`, as long as nothing prints a Tab. The source scrolls before it
writes the last cell, and before a new line there, where the text terminal scrolls
afterwards; `Page.emit_makeRoom` says that nobody can tell.
-/

namespace Kernel391

open TextScreen

/-! ## The page a screen shows -/

abbrev TextPage := Page NUM_ROWS NUM_COLS UInt8

/-- `\n` and `\r`. -/
def IsBreak (c : UInt8) : Prop := c = 0x0a ∨ c = 0x0d

instance : DecidablePred IsBreak := fun _ => inferInstanceAs (Decidable (_ ∨ _))

/-- The character byte of a cell; its attribute byte comes after it. -/
def cellAt (r : Fin NUM_ROWS) (c : Fin NUM_COLS) : Fin SCREEN_SIZE :=
  ⟨2 * (NUM_COLS * r + c), by
    have hr : r.val < 25 := r.isLt
    have hc : c.val < 80 := c.isLt
    simp only [SCREEN_SIZE, NUM_ROWS, NUM_COLS]
    omega⟩

/-- The characters of a screen, and the cursor as row and column. -/
def Screen.page (v : Screen) : TextPage where
  char r c := v.cell (cellAt r c)
  row := ⟨(v.location / 160).toNat % 25, Nat.mod_lt _ (by decide)⟩
  col := ⟨(v.location % 160 / 2).toNat % 80, Nat.mod_lt _ (by decide)⟩

/-- The cursor is on a cell. -/
structure Screen.OnGrid (v : Screen) : Prop where
  nonneg : 0 ≤ v.location
  le : v.location ≤ 3998
  even : v.location % 2 = 0

/-- A screen with its cursor as column and row is a page. -/
structure Pen.Shows (q : Pen) (p : TextPage) : Prop where
  char : ∀ r c, q.cell (cellAt r c) = p.char r c
  x : q.x = p.col
  y : q.y = p.row

section
variable {q : Pen} {p : TextPage} {v : Screen}

theorem Screen.OnGrid.shows (h : v.OnGrid) : v.pen.Shows v.page := by
  have h0 := h.nonneg
  have hle := h.le
  obtain ⟨-, hx, hy⟩ := Screen.pen_inside h0 (by omega)
  constructor
  · intro r c
    rfl
  · rw [hx]
    show _ = (((v.location % 160 / 2).toNat % 80 : ℕ) : ℤ)
    omega
  · rw [hy]
    show _ = (((v.location / 160).toNat % 25 : ℕ) : ℤ)
    omega

theorem Pen.Shows.screen (h : q.Shows p) : q.screen.OnGrid ∧ q.screen.page = p := by
  have hrow : p.row.val < 25 := p.row.isLt
  have hcol : p.col.val < 80 := p.col.isLt
  have hloc : q.screen.location = 2 * (p.col.val + p.row.val * 80) := by
    show 2 * (q.x + q.y * 80) = _
    rw [h.x, h.y]
  refine ⟨⟨by omega, by omega, by omega⟩, ?_⟩
  ext1
  · ext r c
    exact congrArg UInt8.toNat (h.char r c)
  · apply Fin.ext
    show (q.screen.location / 160).toNat % 25 = p.row.val
    omega
  · apply Fin.ext
    show (q.screen.location % 160 / 2).toNat % 80 = p.col.val
    omega

/-! ## Each routine of the source, row by row -/

theorem scrollCells_char (cell : Fin SCREEN_SIZE → UInt8) (r : Fin NUM_ROWS) (c : Fin NUM_COLS) :
    scrollCells cell (cellAt r c) = up 0 (fun r c => cell (cellAt r c)) r c := by
  have hsize : SCREEN_SIZE = 4000 := rfl
  have hrows : NUM_ROWS = 25 := rfl
  have hcols : NUM_COLS = 80 := rfl
  have hc := c.isLt
  have hval : (cellAt r c).val = 2 * (80 * r + c) := rfl
  simp only [scrollCells, up]
  rw [if_pos (by omega)]
  by_cases hr : r.val + 1 < NUM_ROWS
  · rw [dif_pos hr, dif_pos (by omega)]
    congr 1
    apply Fin.ext
    show (cellAt r c).val + 2 * 80 = 2 * (80 * (r.val + 1) + c.val)
    omega
  · rw [dif_neg hr, dif_neg (by omega)]

theorem drawCell_char (attr b : UInt8) (cell : Fin SCREEN_SIZE → UInt8) {o : ℤ}
    {row r : Fin NUM_ROWS} {col c : Fin NUM_COLS} (ho : o = 2 * (80 * (row.val : ℤ) + col.val)) :
    drawCell o b attr cell (cellAt r c) = put row col b (fun r c => cell (cellAt r c)) r c := by
  have hc : c.val < 80 := c.isLt
  have hcol : col.val < 80 := col.isLt
  have hval : (cellAt r c).val = 2 * (80 * r + c) := rfl
  have hiff : ((cellAt r c).val : ℤ) = o ↔ r = row ∧ c = col := by
    rw [Fin.ext_iff, Fin.ext_iff]
    omega
  simp only [drawCell, put]
  rw [if_neg (by omega)]
  simp only [hiff]

theorem Pen.Shows.char_eq (h : q.Shows p) : (fun r c => q.cell (cellAt r c)) = p.char := by
  funext r c
  exact h.char r c

/-- Moving up, with the cursor in any row but the first. -/
theorem Pen.Shows.lineUp (h : q.Shows p) {above : Fin NUM_ROWS}
    (habove : above.val + 1 = p.row.val) :
    q.lineUp.Shows { char := up 0 p.char, row := above, col := p.col } := by
  constructor
  · intro r c
    show scrollCells q.cell (cellAt r c) = _
    rw [scrollCells_char, h.char_eq]
  · exact h.x
  · show q.y - 1 = above.val
    have hy := h.y
    omega

/-- Room is made on the last cell, as on a page. -/
theorem Pen.Shows.room (h : q.Shows p) : (Screen.room q).Shows (p.makeRoom 0) := by
  have hrows : NUM_ROWS = 25 := rfl
  have hcols : NUM_COLS = 80 := rfl
  have hend : (q.x = (NUM_COLS : ℤ) - 1 ∧ q.y = (NUM_ROWS : ℤ) - 1) ↔ p.AtEnd := by
    rw [h.x, h.y]
    unfold Page.AtEnd
    omega
  unfold Screen.room Page.makeRoom
  simp only [hend]
  split_ifs with hlast
  · apply h.lineUp
    have hrow := hlast.1
    show p.row.val - 1 + 1 = p.row.val
    omega
  · exact h

theorem Pen.Shows.newline (h : q.Shows p) : (Screen.newline q).Shows (p.newline 0) := by
  have hrows : NUM_ROWS = 25 := rfl
  have hrow := p.row.isLt
  have hlast : q.y = (NUM_ROWS : ℤ) - 1 ↔ ¬ p.row.val + 1 < NUM_ROWS := by
    rw [h.y]
    omega
  unfold Screen.newline Page.newline Page.descend
  simp only [hlast]
  split_ifs with hnext
  · constructor
    · exact h.char
    · rfl
    · show q.y + 1 = ((p.row.val + 1 : ℕ) : ℤ)
      rw [h.y]
      rfl
  · have habove : (⟨p.row - 1, by omega⟩ : Fin NUM_ROWS).val + 1 = p.row.val := by
      show p.row.val - 1 + 1 = p.row.val
      omega
    have hup := h.lineUp habove
    constructor
    · exact hup.char
    · rfl
    · show q.lineUp.y + 1 = p.row
      rw [hup.y]
      show ((p.row.val - 1 : ℕ) : ℤ) + 1 = p.row.val
      omega

/-- Anywhere but on the last cell, which is never written. -/
theorem Pen.Shows.character (h : q.Shows p) (hend : ¬ p.AtEnd) (attr b : UInt8) :
    (Screen.character attr b q).Shows (p.write 0 b) := by
  have hrows : NUM_ROWS = 25 := rfl
  have hcols : NUM_COLS = 80 := rfl
  have hrow : p.row.val < 25 := p.row.isLt
  have hcol : p.col.val < 80 := p.col.isLt
  have hx := h.x
  have hy := h.y
  have hroom : ¬ (p.row.val + 1 = 25 ∧ p.col.val + 1 = 80) := hend
  have hchar : ∀ r c, (Screen.character attr b q).cell (cellAt r c) =
      put p.row p.col b p.char r c := by
    intro r c
    show drawCell (2 * (80 * q.y + q.x)) b attr q.cell (cellAt r c) = _
    have ho : 2 * (80 * q.y + q.x) = 2 * (80 * (p.row.val : ℤ) + p.col.val) := by omega
    rw [drawCell_char attr b q.cell ho, h.char_eq]
  have hcursor : (Screen.character attr b q).x = (q.x + 1).tmod 80 ∧
      (Screen.character attr b q).y = (q.y + (q.x + 1).tdiv 80).tmod 25 := ⟨rfl, rfl⟩
  rw [Int.tdiv_eq_ediv_of_nonneg (by omega), Int.tmod_eq_emod_of_nonneg (by omega),
    Int.tmod_eq_emod_of_nonneg (by omega)] at hcursor
  unfold Page.write
  split_ifs with hnext
  · constructor
    · exact hchar
    · rw [hcursor.1]
      show _ = ((p.col.val + 1 : ℕ) : ℤ)
      omega
    · rw [hcursor.2]
      show _ = (p.row.val : ℤ)
      omega
  · unfold Page.descend
    rw [dif_pos (by omega)]
    constructor
    · exact hchar
    · rw [hcursor.1]
      show _ = ((0 : ℕ) : ℤ)
      omega
    · rw [hcursor.2]
      show _ = ((p.row.val + 1 : ℕ) : ℤ)
      omega

/-! ## Output -/

/-- One character. -/
theorem Screen.OnGrid.emit (h : v.OnGrid) (attr : UInt8) {c : UInt8} (hc : c ≠ 0x09) :
    (v.emit attr c).OnGrid ∧ (v.emit attr c).page = v.page.emit IsBreak 0 c := by
  have hrows : 2 ≤ NUM_ROWS := by decide
  have hroom := h.shows.room
  rw [← Page.emit_makeRoom IsBreak hrows]
  unfold Screen.emit Page.emit
  dsimp only
  by_cases hbreak : IsBreak c
  · rw [if_pos hbreak, if_pos (show c = 0x0a ∨ c = 0x0d from hbreak)]
    exact hroom.newline.screen
  · rw [if_neg hbreak, if_neg (show ¬ (c = 0x0a ∨ c = 0x0d) from hbreak), if_neg hc]
    exact (hroom.character (Page.makeRoom_not_atEnd hrows) attr c).screen

/-- A string. -/
theorem Screen.OnGrid.emitAll (h : v.OnGrid) (attr : UInt8) {bytes : List UInt8}
    (hbytes : 0x09 ∉ bytes) :
    (v.emitAll attr bytes).OnGrid ∧
      (v.emitAll attr bytes).page = v.page.emitAll IsBreak 0 bytes := by
  induction bytes generalizing v with
  | nil => exact ⟨h, rfl⟩
  | cons c bytes ih =>
    rw [List.mem_cons, not_or] at hbytes
    obtain ⟨hgrid, hpage⟩ := h.emit attr (Ne.symm hbytes.1)
    rw [Page.emitAll_cons, ← hpage]
    exact ih hgrid hbytes.2

/-- Without a Tab, `putc_term` prints as `putc` does. -/
theorem Screen.OnGrid.agreesAll (h : v.OnGrid) (attr : UInt8) {bytes : List UInt8}
    (hbytes : 0x09 ∉ bytes) : AgreesAll attr bytes v := by
  induction bytes generalizing v with
  | nil => trivial
  | cons c bytes ih =>
    rw [List.mem_cons, not_or] at hbytes
    constructor
    · exact Or.inr ⟨h.nonneg, fun htab => hbytes.1 htab.1.symm⟩
    · exact ih (h.emit attr (Ne.symm hbytes.1)).1 hbytes.2

end

/-- Without a Tab in it, what is printed on a terminal, displayed or hidden, is what a text
terminal shows, from every screen with the cursor on a cell. -/
theorem putc_text_screen (t : TermId) (bytes : List UInt8) (hbytes : 0x09 ∉ bytes) :
    (∀ s : Console, s.screen.OnGrid →
      (bytes.foldl (fun s c => putc t c s) s).screen.OnGrid ∧
        (bytes.foldl (fun s c => putc t c s) s).screen.page =
          s.screen.page.emitAll IsBreak 0 bytes) ∧
    (∀ s : Console, Placed s → (s.backup t).OnGrid →
      ((bytes.foldl (fun s c => putc_term c t s) s).backup t).OnGrid ∧
        ((bytes.foldl (fun s c => putc_term c t s) s).backup t).page =
          (s.backup t).page.emitAll IsBreak 0 bytes) := by
  constructor
  · intro s h
    rw [foldl_putc_screen]
    exact h.emitAll _ hbytes
  · intro s hs h
    have hnear : (s.backup t).Near :=
      ⟨lt_of_lt_of_le (by decide) h.nonneg, lt_of_le_of_lt h.le (by decide)⟩
    have hagrees := h.agreesAll (attrib t) hbytes
    rw [(foldl_putc_term_backup bytes (hs.base_lt t) hnear hagrees).1]
    exact h.emitAll _ hbytes

theorem putc_text_screen_sample :
    (([0x41, 0x0a] : List UInt8).foldl (fun s c => putc 0 c s)
      (init_term_console Console.blank)).screen.page =
        (init_term_console Console.blank).screen.page.emitAll IsBreak 0 [0x41, 0x0a] ∧
    ((([0x41, 0x0a] : List UInt8).foldl (fun s c => putc_term c 0 s)
      (init_term_console Console.blank)).backup 0).page =
        ((init_term_console Console.blank).backup 0).page.emitAll IsBreak 0 [0x41, 0x0a] := by
  obtain ⟨hlive, hhidden⟩ := putc_text_screen 0 [0x41, 0x0a] (by decide)
  constructor
  · exact (hlive (init_term_console Console.blank) ⟨by decide, by decide, by decide⟩).2
  · exact (hhidden (init_term_console Console.blank) (init_term_console_placed _)
      ⟨by decide, by decide, by decide⟩).2

end Kernel391
