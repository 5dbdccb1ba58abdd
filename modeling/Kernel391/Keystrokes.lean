import Kernel391.BackspaceSearch

/-!
# Backspace after a key

A character, a Tab or an Enter moves the cursor forward by a routine of its own, and the
Backspace pressed next finds the way back from the characters of the line alone. The line is
always restored. `keystroke_undone_iff` says for which cursors, screens and lines the cursor is
too.
-/

namespace Kernel391

open TransitionSystem

/-! ## What Backspace should restore -/

/-- The keys that are typed into the line. -/
def Types (scode : ℕ) (s : Console) : Prop := IsCharacter scode s ∨ scode = TAB ∨ scode = ENTER

/-- The key moves the screen up by a row: a character in the last cell, a Tab that reaches its
end, or the middle of the screen, and an Enter in the last row. -/
def Scrolls (scode : ℕ) (s : Console) : Prop :=
  if scode = TAB then
    (1994 ≤ s.current_location ∧ s.current_location ≤ 2000) ∨ 3992 ≤ s.current_location
  else if scode = ENTER then 3840 ≤ s.current_location
  else s.length_key ≠ KEYBOARD_BUFFER_SIZE - 1 ∧ s.current_location = 3998

instance (scode : ℕ) (s : Console) : Decidable (Scrolls scode s) := by
  unfold Scrolls
  infer_instance

/-- Where the cell under the cursor is after the key. -/
def cursorCell (scode : ℕ) (s : Console) : ℤ :=
  if Scrolls scode s then s.current_location - 160 else s.current_location

/-- The key, and then Backspace, restore the line and the cursor. -/
def Undone (t : TermId) (scode : ℕ) (s : Console) : Prop :=
  ∃ s₁ s₂, process_char t scode s = some (s₁, 0) ∧
    process_char t BACKSPACE s₁ = some (s₂, 0) ∧ s₂.live = s.live ∧
    s₂.current_location = cursorCell scode s

/-- A character of the screen, with the blank behind its end that scrolling brings up. -/
def Console.charOrBlank (s : Console) (i : ℤ) : UInt8 := if i < 2000 then s.charAt i else 0

/-- The character before the cursor is the last one of the line, and there is no other of its
kind in the rest of the row, or in the cell behind that. -/
def EndsLine (s : Console) : Prop :=
  2 ≤ s.current_location ∧ s.charAt (s.current_location / 2 - 1) = s.lastKey ∧
    ∀ i, s.current_location / 2 ≤ i → i ≤ (s.current_location / 160 + 1) * 80 →
      s.charOrBlank i ≠ s.lastKey

/-- Where Backspace finds the way back. -/
structure Undoable (scode : ℕ) (s : Console) : Prop where
  /-- The last entry of the line buffer is not for characters. -/
  character : IsCharacter scode s → s.length_key = KEYBOARD_BUFFER_SIZE - 1 →
    s.current_location = 0
  /-- Not across the middle of the screen. -/
  tab : scode = TAB → s.current_location < 1994 ∨ 2000 < s.current_location
  /-- There is something before the line feed. -/
  enter : scode = ENTER → s.length_key ≠ 0
  /-- An empty line starts at the left. -/
  emptyLine : scode = ENTER → s.lastKey = 0x0a → s.current_location % 160 = 0
  line : scode = ENTER → s.lastKey ≠ 0x0a → EndsLine s

/-! ## Where the keys leave the cursor -/

namespace Screen

variable {v : Screen}

/-- A character of a pen that has room is drawn at the cursor. -/
theorem character_screen {p : Pen} (hp : p.Inside) (hroom : p.y < 24 ∨ p.x < 79)
    (attr c : UInt8) : (character attr c p).screen = p.screen.draw c attr := by
  have hx0 := hp.x_nonneg
  have hxlt := hp.x_lt
  have hy0 := hp.y_nonneg
  have hylt := hp.y_lt
  have hoffset : (2 * (NUM_COLS * p.y + p.x) : ℤ) = 2 * (p.x + p.y * NUM_COLS) := by ring
  unfold character
  rw [hoffset]
  ext1
  · rfl
  · show 2 * ((p.x + 1).tmod 80 + (p.y + (p.x + 1).tdiv 80).tmod 25 * 80) =
      2 * (p.x + p.y * 80) + 2
    rw [Int.tmod_eq_emod_of_nonneg (by omega), Int.tdiv_eq_ediv_of_nonneg (by omega),
      Int.tmod_eq_emod_of_nonneg (by omega)]
    omega

/-- `putc` of a character that is drawn. The last cell is left free by moving the screen up. -/
theorem OnGrid.emit_character (h : v.OnGrid) (attr : UInt8) {c : UInt8}
    (hbreak : ¬ (c = 0x0a ∨ c = 0x0d)) (htab : c ≠ 0x09) : v.emit attr c =
      (if v.location = 3998 then { v.scroll with location := 3838 } else v).draw c attr := by
  have h0 := h.nonneg
  have hle := h.le
  have heven := h.even
  obtain ⟨hinside, hx, hy⟩ := pen_inside h0 (by omega)
  have hlast : (v.pen.x = (NUM_COLS : ℤ) - 1 ∧ v.pen.y = (NUM_ROWS : ℤ) - 1) ↔
      v.location = 3998 := by
    show v.pen.x = 80 - 1 ∧ v.pen.y = 25 - 1 ↔ _
    omega
  have hroom : (room v.pen).screen =
      if v.location = 3998 then { v.scroll with location := 3838 } else v := by
    unfold room
    split_ifs with hcell hend hend
    · ext1
      · rfl
      · show 2 * (v.pen.x + (v.pen.y - 1) * 80) = 3838
        omega
    · exact absurd (hlast.mp hcell) hend
    · exact absurd (hlast.mpr hend) hcell
    · ext1
      · rfl
      · show 2 * (v.pen.x + v.pen.y * 80) = v.location
        omega
  unfold Screen.emit
  dsimp only
  rw [if_neg hbreak, if_neg htab, character_screen (room_inside hinside), hroom]
  unfold room
  split_ifs with hcell
  · show v.pen.y - 1 < 24 ∨ _
    omega
  · rw [hlast] at hcell
    omega

theorem OnGrid.emit_location (h : v.OnGrid) (attr : UInt8) {c : UInt8}
    (hbreak : ¬ (c = 0x0a ∨ c = 0x0d)) (htab : c ≠ 0x09) :
    (v.emit attr c).location = if v.location = 3998 then 3840 else v.location + 2 := by
  rw [h.emit_character attr hbreak htab]
  split_ifs <;> rfl

theorem tabColumn_location (v : Screen) : v.tabColumn.location =
    if v.location = 2000 then 3842 else if v.location = 3998 then 3840
      else v.location + 2 := by
  have hdraw : ∀ w : Screen, (w.draw 0x20 BLACK).location = w.location + 2 := fun _ => rfl
  have hscroll : ∀ w : Screen, w.scroll.location = 3840 := fun _ => rfl
  unfold tabColumn
  dsimp only
  by_cases hmiddle : v.location = 2000
  · rw [if_pos hmiddle, if_pos hmiddle, if_neg (by rw [hdraw, hscroll]; decide), hdraw, hscroll]
    rfl
  · rw [if_neg hmiddle, if_neg hmiddle, apply_ite location, hscroll, hdraw]
    split_ifs <;> omega

/-- The rows a column of a Tab moves the screen up by. -/
def columnRows (v : Screen) : ℕ := if v.location = 2000 ∨ v.location = 3998 then 1 else 0

/-- A column, with the row it may move the screen up by. -/
theorem tabColumn_cases (v : Screen) :
    (v.location = 2000 ∧ v.columnRows = 1 ∧ v.tabColumn.location = 3842) ∨
      (v.location = 3998 ∧ v.columnRows = 1 ∧ v.tabColumn.location = 3840) ∨
      (v.location ≠ 2000 ∧ v.location ≠ 3998 ∧ v.columnRows = 0 ∧
        v.tabColumn.location = v.location + 2) := by
  unfold columnRows
  rw [tabColumn_location]
  split_ifs <;> omega

/-- Away from the middle and the end of the screen. -/
theorem tabColumn_plain (hmiddle : v.location ≠ 2000) (hend : v.location ≠ 3998) :
    v.columnRows = 0 ∧ v.tabColumn.location = v.location + 2 := by
  rcases tabColumn_cases v with ⟨h, -⟩ | ⟨h, -⟩ | ⟨-, -, h⟩
  · exact absurd h hmiddle
  · exact absurd h hend
  · exact h

/-- Two columns, with the rows they may move the screen up by. -/
theorem twoColumns_cases (heven : v.location % 2 = 0) (hle : v.location ≤ 3998) :
    ((1998 ≤ v.location ∧ v.location ≤ 2000) ∧ v.columnRows + v.tabColumn.columnRows = 1 ∧
        v.tabColumn.tabColumn.location = v.location + 1844) ∨
      (3996 ≤ v.location ∧ v.columnRows + v.tabColumn.columnRows = 1 ∧
        v.tabColumn.tabColumn.location = v.location - 156) ∨
      (¬ (1998 ≤ v.location ∧ v.location ≤ 2000) ∧ v.location < 3996 ∧
        v.columnRows + v.tabColumn.columnRows = 0 ∧
        v.tabColumn.tabColumn.location = v.location + 4) := by
  rcases tabColumn_cases v with ⟨hmiddle, hrows, hloc⟩ | ⟨hend, hrows, hloc⟩ |
    ⟨hmiddle, hend, hrows, hloc⟩
  · have hnext := tabColumn_plain (v := v.tabColumn) (by omega) (by omega)
    exact Or.inl ⟨by omega, by omega, by omega⟩
  · have hnext := tabColumn_plain (v := v.tabColumn) (by omega) (by omega)
    exact Or.inr (Or.inl ⟨by omega, by omega, by omega⟩)
  · rcases tabColumn_cases v.tabColumn with ⟨hmiddle', hrows', hloc'⟩ | ⟨hend', hrows', hloc'⟩ |
      ⟨hmiddle', hend', hrows', hloc'⟩
    · exact Or.inl ⟨by omega, by omega, by omega⟩
    · exact Or.inr (Or.inl ⟨by omega, by omega, by omega⟩)
    · exact Or.inr (Or.inr ⟨by omega, by omega, by omega, by omega⟩)

theorem twoColumns_plain (heven : v.location % 2 = 0)
    (hmiddle : ¬ (1998 ≤ v.location ∧ v.location ≤ 2000)) (hend : v.location < 3996) :
    v.columnRows + v.tabColumn.columnRows = 0 ∧
      v.tabColumn.tabColumn.location = v.location + 4 := by
  obtain ⟨hrows, hloc⟩ := tabColumn_plain (v := v) (by omega) (by omega)
  obtain ⟨hrows', hloc'⟩ := tabColumn_plain (v := v.tabColumn) (by omega) (by omega)
  exact ⟨by omega, by omega⟩

/-- The rows the four columns of a Tab move the screen up by. -/
def tabRows (v : Screen) : ℕ :=
  v.columnRows + v.tabColumn.columnRows + v.tabColumn.tabColumn.columnRows +
    v.tabColumn.tabColumn.tabColumn.columnRows

/-- Four columns. -/
theorem OnGrid.tabKey_cases (h : v.OnGrid) :
    ((1994 ≤ v.location ∧ v.location ≤ 2000) ∧ v.tabRows = 1 ∧
        v.tabKey.location = v.location + 1848) ∨
      (3992 ≤ v.location ∧ v.tabRows = 1 ∧ v.tabKey.location = v.location - 152) ∨
      (¬ (1994 ≤ v.location ∧ v.location ≤ 2000) ∧ v.location < 3992 ∧ v.tabRows = 0 ∧
        v.tabKey.location = v.location + 8) := by
  have heven := h.even
  have hle := h.le
  unfold tabRows tabKey
  rcases twoColumns_cases heven hle with ⟨hmiddle, hrows, hloc⟩ | ⟨hend, hrows, hloc⟩ |
    ⟨hmiddle, hend, hrows, hloc⟩
  · have hnext := twoColumns_plain (v := v.tabColumn.tabColumn) (by omega) (by omega) (by omega)
    exact Or.inl ⟨by omega, by omega, by omega⟩
  · have hnext := twoColumns_plain (v := v.tabColumn.tabColumn) (by omega) (by omega) (by omega)
    exact Or.inr (Or.inl ⟨by omega, by omega, by omega⟩)
  · rcases twoColumns_cases (v := v.tabColumn.tabColumn) (by omega) (by omega) with
      ⟨hmiddle', hrows', hloc'⟩ | ⟨hend', hrows', hloc'⟩ | ⟨hmiddle', hend', hrows', hloc'⟩
    · exact Or.inl ⟨by omega, by omega, by omega⟩
    · exact Or.inr (Or.inl ⟨by omega, by omega, by omega⟩)
    · exact Or.inr (Or.inr ⟨by omega, by omega, by omega, by omega⟩)

theorem OnGrid.tabKey_location (h : v.OnGrid) : v.tabKey.location =
    if 1994 ≤ v.location ∧ v.location ≤ 2000 then v.location + 1848
      else if 3992 ≤ v.location then v.location - 152 else v.location + 8 := by
  rcases h.tabKey_cases with ⟨hmiddle, -, hloc⟩ | ⟨hend, -, hloc⟩ | ⟨hmiddle, hend, -, hloc⟩
  · rw [if_pos hmiddle, hloc]
  · rw [if_neg (by omega), if_pos hend, hloc]
  · rw [if_neg hmiddle, if_neg (by omega), hloc]

theorem OnGrid.enterKey_location (h : v.OnGrid) : v.enterKey.location =
    if 3840 ≤ v.location then 3840 else (v.location / 160 + 1) * 160 := by
  have h0 := h.nonneg
  have hle := h.le
  have hrow : v.location.tdiv 160 = v.location / 160 := Int.tdiv_eq_ediv_of_nonneg h0
  unfold enterKey
  rw [hrow]
  by_cases hlast : 3840 ≤ v.location
  · rw [if_pos (by omega), if_pos hlast]
    rfl
  · rw [if_neg (by omega), if_neg hlast]
    show (v.location / 160 + 1) * 80 * 2 = _
    omega

/-! ## How far the keys move the screen -/

/-- The characters before the cursor have moved up. -/
def MovesUp (rows : ℕ) (v w : Screen) : Prop :=
  ∀ i j : Fin SCREEN_SIZE, i.val % 2 = 0 → (i.val : ℤ) < v.location →
    i.val = j.val + 160 * rows → w.cell j = v.cell i

variable {w x : Screen} {a b : ℕ}

theorem MovesUp.refl (v : Screen) : v.MovesUp 0 v := by
  intro i j _ _ hij
  congr 1
  apply Fin.ext
  omega

theorem MovesUp.trans (h : v.MovesUp a w) (h' : w.MovesUp b x)
    (hloc : v.location ≤ w.location + 160 * a) : v.MovesUp (a + b) x := by
  intro i j heven hi hij
  have hisize := i.isLt
  have hmiddle : w.cell ⟨j.val + 160 * b, by omega⟩ = v.cell i := by
    apply h i _ heven hi
    show i.val = j.val + 160 * b + 160 * a
    omega
  rw [← hmiddle]
  apply h'
  · show (j.val + 160 * b) % 2 = 0
    omega
  · show ((j.val + 160 * b : ℕ) : ℤ) < w.location
    omega
  · rfl

theorem movesUp_scroll (v : Screen) : v.MovesUp 1 v.scroll := by
  intro i j heven _ hij
  have hisize := i.isLt
  have hcols : 2 * NUM_COLS = 160 := rfl
  show scrollCells v.cell j = _
  unfold scrollCells
  rw [if_pos (by omega), dif_pos (by omega)]
  congr 1
  apply Fin.ext
  show j.val + 2 * NUM_COLS = i.val
  omega

theorem movesUp_draw (v : Screen) (c attr : UInt8) : v.MovesUp 0 (v.draw c attr) := by
  intro i j _ hi hij
  have hsame : j = i := by
    apply Fin.ext
    omega
  show drawCell v.location c attr v.cell j = _
  unfold drawCell
  rw [hsame, if_neg (by omega), if_neg (by omega)]

theorem OnGrid.emit_movesUp (h : v.OnGrid) (attr : UInt8) {c : UInt8}
    (hbreak : ¬ (c = 0x0a ∨ c = 0x0d)) (htab : c ≠ 0x09) :
    v.MovesUp (if v.location = 3998 then 1 else 0) (v.emit attr c) := by
  rw [h.emit_character attr hbreak htab]
  by_cases hlast : v.location = 3998
  · rw [if_pos hlast, if_pos hlast]
    have hroom : v.MovesUp 1 { v.scroll with location := 3838 } := movesUp_scroll v
    apply hroom.trans (movesUp_draw _ c attr)
    show v.location ≤ 3838 + 160 * 1
    omega
  · rw [if_neg hlast, if_neg hlast]
    exact movesUp_draw v c attr

theorem tabColumn_movesUp (v : Screen) : v.MovesUp v.columnRows v.tabColumn := by
  have hdraw : ∀ w : Screen, (w.draw 0x20 BLACK).location = w.location + 2 := fun _ => rfl
  have hscroll : v.scroll.location = 3840 := rfl
  unfold columnRows tabColumn
  dsimp only
  by_cases hmiddle : v.location = 2000
  · rw [if_pos hmiddle, if_pos (Or.inl hmiddle),
      if_neg (by rw [hdraw, hscroll]; decide)]
    apply (movesUp_scroll v).trans (movesUp_draw _ _ _)
    show v.location ≤ 3840 + 160 * 1
    omega
  · rw [if_neg hmiddle, hdraw]
    by_cases hend : v.location = 3998
    · rw [if_pos (Or.inr hend), if_pos (by omega)]
      apply (movesUp_draw v _ _).trans (movesUp_scroll _)
      rw [hdraw]
      omega
    · rw [if_neg (by omega), if_neg (by omega)]
      exact movesUp_draw v _ _

theorem OnGrid.tabKey_movesUp (h : v.OnGrid) : v.MovesUp
    (if (1994 ≤ v.location ∧ v.location ≤ 2000) ∨ 3992 ≤ v.location then 1 else 0)
    v.tabKey := by
  have hrows : (if (1994 ≤ v.location ∧ v.location ≤ 2000) ∨ 3992 ≤ v.location then 1 else 0) =
      v.tabRows := by
    rcases h.tabKey_cases with ⟨hmiddle, hrows, -⟩ | ⟨hend, hrows, -⟩ |
      ⟨hmiddle, hend, hrows, -⟩
    · rw [if_pos (Or.inl hmiddle), hrows]
    · rw [if_pos (Or.inr hend), hrows]
    · rw [if_neg (not_or.mpr ⟨hmiddle, by omega⟩), hrows]
  have hfirst := tabColumn_cases v
  have hpair := twoColumns_cases h.even h.le
  have hthird := tabColumn_cases v.tabColumn.tabColumn
  rw [hrows]
  unfold tabKey tabRows
  apply (((tabColumn_movesUp v).trans (tabColumn_movesUp _) _).trans
    (tabColumn_movesUp _) _).trans (tabColumn_movesUp _)
  · push_cast
    omega
  · omega
  · push_cast
    omega

theorem OnGrid.enterKey_movesUp (h : v.OnGrid) :
    v.MovesUp (if 3840 ≤ v.location then 1 else 0) v.enterKey := by
  have h0 := h.nonneg
  have hle := h.le
  have hrow : v.location.tdiv 160 = v.location / 160 := Int.tdiv_eq_ediv_of_nonneg h0
  unfold enterKey
  rw [hrow]
  by_cases hlast : 3840 ≤ v.location
  · rw [if_pos hlast, if_pos (by omega)]
    exact movesUp_scroll v
  · rw [if_neg hlast, if_neg (by omega)]
    exact MovesUp.refl v

end Screen

section
variable {t : TermId} {s s₁ s₂ : Console} {scode : ℕ} {c : KeyCell}

/-! ## The line -/

theorem buffer_of_live {i : ℕ} (h : s.live[i]? = some c) : s.keyboard_buffer i = c := by
  unfold Console.live cells at h
  rw [List.getElem?_map, Option.map_eq_some_iff] at h
  obtain ⟨j, hj, hc⟩ := h
  rw [List.getElem?_eq_some_iff] at hj
  obtain ⟨hlt, hj⟩ := hj
  rw [List.getElem_range] at hj
  exact hj ▸ hc

theorem length_of_append (h : s₁.live = s.live ++ [c]) : s₁.length_key = s.length_key + 1 := by
  rw [← length_live, h, List.length_append, List.length_singleton, length_live]

theorem lastKey_of_append (h : s₁.live = s.live ++ [c]) : s₁.lastKey = c.c := by
  unfold Console.lastKey
  rw [length_of_append h, Nat.add_sub_cancel, buffer_of_live]
  rw [h, ← length_live s, List.getElem?_concat_length]

theorem keyBefore_of_append (h : s₁.live = s.live ++ [c]) (hempty : s.length_key ≠ 0) :
    s₁.keyBefore = s.lastKey := by
  unfold Console.keyBefore Console.lastKey
  rw [length_of_append h]
  have hlast : s.length_key - 1 < s.live.length := by
    rw [length_live]
    omega
  have hold : s.live[s.length_key - 1]? = some (s.keyboard_buffer (s.length_key - 1)) := by
    unfold Console.live cells
    rw [List.getElem?_map, List.getElem?_range (by omega)]
    rfl
  rw [buffer_of_live (i := s.length_key + 1 - 2)]
  rw [h, List.getElem?_append_left (by omega)]
  exact hold

/-- With a character appended, only the cursor is in question. -/
theorem undone_iff (hkey : process_char t scode s = some (s₁, 0)) (h : s₁.live = s.live ++ [c])
    (hlen : s.length_key < KEYBOARD_BUFFER_SIZE) (hloc : s₁.current_location ≠ 0) :
    Undone t scode s ↔
      (handle_backspace t s₁).map Console.current_location = some (cursorCell scode s) := by
  have hlen₁ := length_of_append h
  have hline : ∀ {s₂}, handle_backspace t s₁ = some s₂ → s₂.live = s.live := by
    intro s₂ hs₂
    rw [handle_backspace_live (by omega) hs₂, if_neg (by omega), h, List.dropLast_concat]
  unfold Undone
  rw [hkey, Option.map_eq_some_iff]
  constructor
  · rintro ⟨s₁', s₂, heq, hback, -, hcell⟩
    rw [Option.some.injEq, Prod.mk.injEq] at heq
    rw [process_char_backspace, Option.map_eq_some_iff] at hback
    obtain ⟨s₂', hs₂, heq₂⟩ := hback
    rw [Prod.mk.injEq] at heq₂
    rw [← heq.1] at hs₂
    exact ⟨s₂', hs₂, heq₂.1 ▸ hcell⟩
  · rintro ⟨s₂, hs₂, hcell⟩
    refine ⟨s₁, s₂, rfl, ?_, hline hs₂, hcell⟩
    rw [process_char_backspace, hs₂]
    rfl

/-- Where Backspace puts the cursor. -/
theorem handle_backspace_location (hloc : s.current_location ≠ 0) (hempty : s.length_key ≠ 0)
    (hlen : s.length_key ≤ KEYBOARD_BUFFER_SIZE) :
    (handle_backspace t s).map Console.current_location =
      if s.lastKey = 0x09 then some (s.current_location - 8)
      else if s.lastKey = 0x0a then
        if s.length_key > 1 ∧ s.keyBefore = 0x0a then some (s.current_location - 160)
        else
          (searchBack s.vmem (s.keyboard_buffer (keyIndex s 2)).c
            (s.current_location + 1).toNat s.current_location).map (· + 2)
      else some (s.current_location - 2) := by
  rw [handle_backspace_eq hloc hempty hlen]
  split_ifs
  · rfl
  · rfl
  · rw [Option.map_map]
    rfl
  · rfl

/-! ## Characters -/

theorem process_key_refused (hfull : s.length_key = KEYBOARD_BUFFER_SIZE - 1) :
    process_key t scode s = s := by
  unfold process_key
  dsimp only
  rw [if_pos hfull]

theorem process_key_live (hroom : s.length_key ≠ KEYBOARD_BUFFER_SIZE - 1) :
    (process_key t scode s).live =
      s.live ++ [{ c := scancode_map s.key_mode scode, typed := some t }] := by
  unfold process_key
  dsimp only
  rw [if_neg hroom, (echo_lines _ _ _).live]
  exact cells_append _ _ _

theorem process_key_screen (hs : s.screen.OnGrid)
    (hroom : s.length_key ≠ KEYBOARD_BUFFER_SIZE - 1) :
    (process_key t scode s).screen =
      s.screen.emit (attrib t) (scancode_map s.key_mode scode) := by
  unfold process_key
  dsimp only
  rw [if_neg hroom, echo_screen _ (scancode_map_ne_tab _ _)]
  · rfl
  · exact hs

theorem process_key_location (hs : s.screen.OnGrid)
    (hroom : s.length_key ≠ KEYBOARD_BUFFER_SIZE - 1) :
    (process_key t scode s).current_location =
      if s.current_location = 3998 then 3840 else s.current_location + 2 := by
  have hlocation : (process_key t scode s).current_location = _ :=
    congrArg Screen.location (process_key_screen hs hroom)
  rw [hs.emit_location _ (scancode_map_not_break _ _) (scancode_map_ne_tab _ _)] at hlocation
  exact hlocation

theorem IsCharacter.ne (h : IsCharacter scode s) : scode ≠ TAB ∧ scode ≠ ENTER := by
  constructor
  · rintro rfl
    exact absurd (by decide) h.1
  · rintro rfl
    exact absurd (by decide) h.1

theorem scrolls_character (h : IsCharacter scode s) :
    Scrolls scode s ↔ s.length_key ≠ KEYBOARD_BUFFER_SIZE - 1 ∧ s.current_location = 3998 := by
  unfold Scrolls
  rw [if_neg h.ne.1, if_neg h.ne.2]

theorem cursorCell_character (h : IsCharacter scode s) :
    cursorCell scode s = if s.length_key ≠ KEYBOARD_BUFFER_SIZE - 1 ∧
      s.current_location = 3998 then s.current_location - 160 else s.current_location := by
  unfold cursorCell
  simp only [scrolls_character h]

/-- A character that the line does not take: Backspace takes the one before it, unless it does
nothing either. -/
theorem undone_refused (hkey : IsCharacter scode s)
    (hfull : s.length_key = KEYBOARD_BUFFER_SIZE - 1) :
    Undone t scode s ↔ s.current_location = 0 := by
  have hprocess : process_char t scode s = _ := process_char_character hkey
  rw [process_key_refused hfull] at hprocess
  constructor
  · rintro ⟨s₁, s₂, hs₁, hback, hlive, -⟩
    rw [hprocess, Option.some.injEq, Prod.mk.injEq] at hs₁
    rw [process_char_backspace, Option.map_eq_some_iff] at hback
    obtain ⟨s₂', hs₂, heq⟩ := hback
    rw [Prod.mk.injEq] at heq
    rw [← hs₁.1] at hs₂
    by_contra hloc
    have hpos : 0 < s.length_key := by
      rw [hfull]
      decide
    have hlength := congrArg List.length hlive
    rw [← heq.1, handle_backspace_live (by omega) hs₂, if_neg (by omega),
      List.length_dropLast, length_live] at hlength
    omega
  · intro hloc
    have hcell := cursorCell_character hkey
    rw [if_neg fun hscroll => hscroll.1 hfull] at hcell
    refine ⟨s, s, hprocess, ?_, rfl, hcell.symm⟩
    rw [process_char_backspace]
    unfold handle_backspace
    rw [if_pos hloc]
    rfl

/-- A character that is drawn. -/
theorem undone_typed (h : TypingOk (s, t)) (hkey : IsCharacter scode s)
    (hlen : s.length_key < KEYBOARD_BUFFER_SIZE)
    (hroom : s.length_key ≠ KEYBOARD_BUFFER_SIZE - 1) : Undone t scode s := by
  have hgrid : s.screen.OnGrid := h.live_screen.onGrid
  have h0 : 0 ≤ s.current_location := hgrid.nonneg
  have happend : (process_key t scode s).live = _ := process_key_live hroom
  have hlength := length_of_append happend
  have hlast := lastKey_of_append happend
  have hlocation : (process_key t scode s).current_location = _ :=
    process_key_location hgrid hroom
  have hloc : (process_key t scode s).current_location ≠ 0 := by
    rw [hlocation]
    split_ifs <;> omega
  have hbreak := not_or.mp (scancode_map_not_break s.key_mode scode)
  rw [undone_iff (process_char_character hkey) happend hlen hloc,
    handle_backspace_location hloc (by omega) (by omega), hlast,
    if_neg (scancode_map_ne_tab _ _), if_neg hbreak.1, hlocation, cursorCell_character hkey,
    Option.some.injEq]
  by_cases hend : s.current_location = 3998
  · rw [if_pos hend, if_pos ⟨hroom, hend⟩, hend]
    decide
  · rw [if_neg hend, if_neg fun hscroll => hend hscroll.2]
    omega

theorem undone_character (h : TypingOk (s, t)) (hkey : IsCharacter scode s)
    (hlen : s.length_key < KEYBOARD_BUFFER_SIZE) :
    Undone t scode s ↔ (s.length_key = KEYBOARD_BUFFER_SIZE - 1 → s.current_location = 0) := by
  by_cases hfull : s.length_key = KEYBOARD_BUFFER_SIZE - 1
  · rw [undone_refused hkey hfull]
    exact ⟨fun hloc _ => hloc, fun hloc => hloc hfull⟩
  · exact iff_of_true (undone_typed h hkey hlen hfull) fun heq => absurd heq hfull

/-! ## Tab -/

theorem tab_location (hs : s.screen.OnGrid) (hroom : s.length_key ≠ KEYBOARD_BUFFER_SIZE) :
    (append_key t 0x09 (handle_tab s)).current_location =
      if 1994 ≤ s.current_location ∧ s.current_location ≤ 2000 then s.current_location + 1848
      else if 3992 ≤ s.current_location then s.current_location - 152
      else s.current_location + 8 := by
  have hlocation := hs.tabKey_location
  rw [← handle_tab_screen hroom] at hlocation
  exact hlocation

/-- A Tab is undone, unless it reaches the middle of the screen. -/
theorem undone_tab (h : TypingOk (s, t)) (hlen : s.length_key < KEYBOARD_BUFFER_SIZE) :
    Undone t TAB s ↔ s.current_location < 1994 ∨ 2000 < s.current_location := by
  have hgrid : s.screen.OnGrid := h.live_screen.onGrid
  have h0 : 0 ≤ s.current_location := hgrid.nonneg
  have hle : s.current_location ≤ 3998 := hgrid.le
  have hprocess : process_char t TAB s = some (append_key t 0x09 (handle_tab s), 0) := by
    rw [process_char_tab, if_neg (by omega)]
  have happend : (append_key t 0x09 (handle_tab s)).live = _ :=
    append_key_live (handle_tab_lines s)
  have hlength := length_of_append happend
  have hlast := lastKey_of_append happend
  have hnext : (append_key t 0x09 (handle_tab s)).current_location = _ :=
    tab_location hgrid (by omega)
  have hloc : (append_key t 0x09 (handle_tab s)).current_location ≠ 0 := by
    rw [hnext]
    split_ifs <;> omega
  have hcell : cursorCell TAB s = if (1994 ≤ s.current_location ∧ s.current_location ≤ 2000) ∨
      3992 ≤ s.current_location then s.current_location - 160 else s.current_location := rfl
  rw [undone_iff hprocess happend hlen hloc,
    handle_backspace_location hloc (by omega) (by omega), if_pos hlast, hnext, hcell,
    Option.some.injEq]
  split_ifs <;> omega

/-! ## Enter -/

theorem enter_location (hs : s.screen.OnGrid) (hroom : s.length_key ≠ KEYBOARD_BUFFER_SIZE) :
    (append_key t 0x0a (handle_enter t s)).current_location =
      if 3840 ≤ s.current_location then 3840 else (s.current_location / 160 + 1) * 160 := by
  have hlocation := hs.enterKey_location
  rw [← handle_enter_screen hroom] at hlocation
  exact hlocation

theorem charOrBlank_of_lt {i : ℤ} (h : i < 2000) : s.charOrBlank i = s.charAt i := by
  unfold Console.charOrBlank
  rw [if_pos h]

/-- The characters after `handle_enter`. -/
theorem handle_enter_charAt (hs : s.screen.OnGrid) (hroom : s.length_key ≠ KEYBOARD_BUFFER_SIZE)
    {i : ℤ} (h0 : 0 ≤ i) (hi : i < 2000) :
    (handle_enter t s).charAt i =
      if 3840 ≤ s.current_location then s.charOrBlank (i + 80) else s.charAt i := by
  have hloc0 : 0 ≤ s.current_location := hs.nonneg
  have hle : s.current_location ≤ 3998 := hs.le
  have hrow : s.current_location.tdiv 160 = s.current_location / 160 :=
    Int.tdiv_eq_ediv_of_nonneg hloc0
  have henter : (handle_enter t s).vmem = (if s.current_location.tdiv 160 + 1 = 25
      then handle_scroll s
      else { s with current_location := (s.current_location.tdiv 160 + 1) * 80 * 2 }).vmem := by
    unfold handle_enter
    dsimp only
    rw [if_neg hroom]
    rfl
  unfold Console.charAt
  rw [henter, hrow]
  by_cases hlast : 3840 ≤ s.current_location
  · rw [if_pos (by omega), if_pos hlast]
    show scrollScreen VIDEO s.vmem (VIDEO + 2 * i) = _
    have hsize : (SCREEN_SIZE : ℤ) = 4000 := rfl
    have hnext : (VIDEO : ℤ) + 2 * (i + 80) = VIDEO + 2 * i + 160 := by ring
    unfold scrollScreen Console.charOrBlank Console.charAt
    dsimp only
    rw [add_sub_cancel_left, if_pos ⟨by omega, by omega, by omega⟩, hnext]
    show (if 2 * i < 3840 then s.vmem (VIDEO + 2 * i + 160) else 0) = _
    by_cases hrows : i + 80 < 2000
    · rw [if_pos (by omega), if_pos hrows]
    · rw [if_neg (by omega), if_neg hrows]
  · rw [if_neg (by omega), if_neg hlast]

/-- After Enter, cell `i` is what cell `i + up` was before. -/
theorem enter_up (hs : s.screen.OnGrid)
    (hchars : ∀ i, 0 ≤ i → i < 2000 → s₁.charAt i =
      if 3840 ≤ s.current_location then s.charOrBlank (i + 80) else s.charAt i)
    (hnext : s₁.current_location =
      if 3840 ≤ s.current_location then 3840 else (s.current_location / 160 + 1) * 160) :
    ∃ up : ℤ, (up = 0 ∨ up = 80 ∧ 3840 ≤ s.current_location) ∧
      cursorCell ENTER s = s.current_location - 2 * up ∧
      s₁.current_location = (s.current_location / 160 + 1) * 160 - 2 * up ∧
      ∀ i, 0 ≤ i → 2 * i ≤ s₁.current_location → s₁.charAt i = s.charOrBlank (i + up) := by
  have h0 : 0 ≤ s.current_location := hs.nonneg
  have hle : s.current_location ≤ 3998 := hs.le
  have hcell : cursorCell ENTER s = if 3840 ≤ s.current_location then
    s.current_location - 160 else s.current_location := rfl
  rw [hcell]
  by_cases hlast : 3840 ≤ s.current_location
  · rw [if_pos hlast] at hnext ⊢
    refine ⟨80, Or.inr ⟨rfl, hlast⟩, by omega, by omega, fun i hi0 hi => ?_⟩
    rw [hchars i hi0 (by omega), if_pos hlast]
  · rw [if_neg hlast] at hnext ⊢
    refine ⟨0, Or.inl rfl, by omega, by omega, fun i hi0 hi => ?_⟩
    rw [hchars i hi0 (by omega), if_neg hlast, add_zero, charOrBlank_of_lt (by omega)]

/-- The search from the start of the next row ends where the line did. -/
theorem searchBack_enter (hs : s.screen.Drawn) (hs₁ : s₁.screen.Drawn)
    (hkey : KeyChar s.lastKey)
    (hchars : ∀ i, 0 ≤ i → i < 2000 → s₁.charAt i =
      if 3840 ≤ s.current_location then s.charOrBlank (i + 80) else s.charAt i)
    (hnext : s₁.current_location =
      if 3840 ≤ s.current_location then 3840 else (s.current_location / 160 + 1) * 160) :
    (searchBack s₁.vmem s.lastKey (s₁.current_location + 1).toNat s₁.current_location).map
      (· + 2) = some (cursorCell ENTER s) ↔ EndsLine s := by
  have h0 : 0 ≤ s.current_location := hs.onGrid.nonneg
  have hle : s.current_location ≤ 3998 := hs.onGrid.le
  have heven : s.current_location % 2 = 0 := hs.onGrid.even
  obtain ⟨up, hup, hcell, hstart, hold⟩ := enter_up hs.onGrid hchars hnext
  rw [Option.map_eq_some_iff, hcell]
  constructor
  · rintro ⟨o, hfound, ho⟩
    obtain ⟨i, rfl, hi0, hi, hchar, hlast⟩ := (searchBack_eq_some_iff hs₁ hkey).mp hfound
    have hbefore : i + up = s.current_location / 2 - 1 := by omega
    rw [hold i hi0 hi, hbefore, charOrBlank_of_lt (by omega)] at hchar
    refine ⟨by omega, hchar, fun j hj hjrow => ?_⟩
    have hother := hlast (j - up) (by omega) (by omega)
    rw [hold (j - up) (by omega) (by omega), sub_add_cancel] at hother
    exact hother
  · rintro ⟨htwo, hchar, hrest⟩
    refine ⟨2 * (s.current_location / 2 - 1 - up), ?_, by omega⟩
    rw [searchBack_eq_some_iff hs₁ hkey]
    refine ⟨s.current_location / 2 - 1 - up, rfl, by omega, by omega, ?_, fun j hj hjrow => ?_⟩
    · rw [hold _ (by omega) (by omega), sub_add_cancel, charOrBlank_of_lt (by omega)]
      exact hchar
    · rw [hold j (by omega) hjrow]
      exact hrest (j + up) (by omega) (by omega)

/-- An Enter is undone, if Backspace finds the end of the line before it. -/
theorem undone_enter (h : TypingOk (s, t)) (hlen : s.length_key < KEYBOARD_BUFFER_SIZE)
    (hempty : s.length_key ≠ 0) :
    Undone t ENTER s ↔
      if s.lastKey = 0x0a then s.current_location % 160 = 0 else EndsLine s := by
  have hs : s.screen.Drawn := h.live_screen
  have hgrid := hs.onGrid
  have h0 : 0 ≤ s.current_location := hgrid.nonneg
  have hle : s.current_location ≤ 3998 := hgrid.le
  have hprocess : process_char t ENTER s = some (append_key t 0x0a (handle_enter t s), 0) := by
    rw [process_char_enter, if_neg (by omega)]
  have happend : (append_key t 0x0a (handle_enter t s)).live = _ :=
    append_key_live (handle_enter_lines t s)
  have hlength := length_of_append happend
  have hlast : (append_key t 0x0a (handle_enter t s)).lastKey = 0x0a := lastKey_of_append happend
  have hbefore := keyBefore_of_append happend hempty
  have hnext : (append_key t 0x0a (handle_enter t s)).current_location = _ :=
    enter_location hgrid (by omega)
  have hloc : (append_key t 0x0a (handle_enter t s)).current_location ≠ 0 := by
    rw [hnext]
    split_ifs <;> omega
  have hsearched : ((append_key t 0x0a (handle_enter t s)).keyboard_buffer
      (keyIndex (append_key t 0x0a (handle_enter t s)) 2)).c = s.lastKey := by
    rw [keyIndex_before (by omega) (by omega), ← hbefore]
    rfl
  have hcell : cursorCell ENTER s = if 3840 ≤ s.current_location then
    s.current_location - 160 else s.current_location := rfl
  rw [undone_iff hprocess happend hlen hloc,
    handle_backspace_location hloc (by omega) (by omega), if_neg (by rw [hlast]; decide),
    if_pos hlast, hbefore, hsearched]
  by_cases hfeed : s.lastKey = 0x0a
  · rw [if_pos ⟨by omega, hfeed⟩, if_pos hfeed, hnext, hcell, Option.some.injEq]
    split_ifs <;> omega
  · rw [if_neg fun htwo => hfeed htwo.2, if_neg hfeed]
    have hchars : ∀ c ∈ s.live, KeyChar c.c := h.live_chars
    have hkey : KeyChar s.lastKey := hchars _ (mem_cells (by omega))
    have hok : KeyOnScreen ENTER s := ⟨fun hchar => absurd rfl hchar.ne.2, fun hback =>
      absurd hback (by decide)⟩
    have hs₁ := (h.key hok hprocess).live_screen
    apply searchBack_enter hs hs₁ hkey _ hnext
    intro i hi0 hi
    exact handle_enter_charAt hgrid (by omega) hi0 hi

/-- On an empty line it is not known what the search of Backspace is for. -/
theorem enter_on_empty (h : TypingOk (s, t)) (hempty : s.length_key = 0) :
    ∃ s₁, process_char t ENTER s = some (s₁, 0) ∧ Searches s₁ ∧
      KEYBOARD_BUFFER_SIZE ≤ keyIndex s₁ 2 := by
  have hgrid : s.screen.OnGrid := h.live_screen.onGrid
  have h0 : 0 ≤ s.current_location := hgrid.nonneg
  have hroom : s.length_key ≠ KEYBOARD_BUFFER_SIZE := by
    rw [hempty]
    decide
  have happend : (append_key t 0x0a (handle_enter t s)).live = _ :=
    append_key_live (handle_enter_lines t s)
  have hlength := length_of_append happend
  have hone : (append_key t 0x0a (handle_enter t s)).length_key = 1 := by omega
  have hle : (append_key t 0x0a (handle_enter t s)).length_key ≤ KEYBOARD_BUFFER_SIZE := by
    rw [hone]
    decide
  refine ⟨append_key t 0x0a (handle_enter t s), ?_, ⟨?_, ?_, ?_, ?_⟩, ?_⟩
  · rw [process_char_enter, if_neg hroom]
  · rw [enter_location hgrid hroom]
    split_ifs <;> omega
  · omega
  · exact lastKey_of_append happend
  · omega
  · have hinside := keyIndex_inside hle (by omega)
    exact Nat.le_of_not_lt fun hlt => hinside.mp hlt hone

/-! ## The cell under the cursor -/

/-- `cursorCell` is where the characters in front of the cursor have gone. -/
theorem key_moves_up {i : ℕ} (h : TypingOk (s, t)) (hkey : Types scode s)
    (hlen : s.length_key < KEYBOARD_BUFFER_SIZE)
    (hprocess : process_char t scode s = some (s₁, i)) :
    s.screen.MovesUp (if Scrolls scode s then 1 else 0) s₁.screen := by
  have hgrid : s.screen.OnGrid := h.live_screen.onGrid
  rcases hkey with hchar | rfl | rfl
  · rw [process_char_character hchar, Option.some.injEq, Prod.mk.injEq] at hprocess
    simp only [scrolls_character hchar]
    rw [← hprocess.1]
    by_cases hroom : s.length_key = KEYBOARD_BUFFER_SIZE - 1
    · rw [process_key_refused hroom, if_neg fun hscroll => hscroll.1 hroom]
      exact Screen.MovesUp.refl _
    · rw [process_key_screen hgrid hroom]
      simp only [ne_eq, hroom, not_false_eq_true, true_and]
      exact hgrid.emit_movesUp _ (scancode_map_not_break _ _) (scancode_map_ne_tab _ _)
  · rw [process_char_tab, if_neg (by omega), Option.some.injEq, Prod.mk.injEq] at hprocess
    rw [← hprocess.1]
    show s.screen.MovesUp _ (handle_tab s).screen
    rw [handle_tab_screen (by omega)]
    exact hgrid.tabKey_movesUp
  · rw [process_char_enter, if_neg (by omega), Option.some.injEq, Prod.mk.injEq] at hprocess
    rw [← hprocess.1]
    show s.screen.MovesUp _ (handle_enter t s).screen
    rw [handle_enter_screen (by omega)]
    exact hgrid.enterKey_movesUp

end

/-! ## The keys together -/

/-- In every run whose steps keep the cursor on the screen, Backspace undoes a key if and only
if it finds the way back. After Enter on an empty line it looks for a byte from outside the
line buffer. -/
theorem keystroke_undone_iff {p : Console × TermId} {scode : ℕ}
    (h : typingSystem.ReachableWhere KeepsOnScreen p) (hkey : Types scode p.1)
    (hroom : p.1.length_key < KEYBOARD_BUFFER_SIZE) :
    (¬ (scode = ENTER ∧ p.1.length_key = 0) →
      (Undone p.2 scode p.1 ↔ Undoable scode p.1)) ∧
    (scode = ENTER ∧ p.1.length_key = 0 →
      ∃ s₁, process_char p.2 scode p.1 = some (s₁, 0) ∧ Searches s₁ ∧
        KEYBOARD_BUFFER_SIZE ≤ keyIndex s₁ 2) := by
  have hok : TypingOk (p.1, p.2) := ReachableWhere.typingOk h
  constructor
  · intro hline
    rcases hkey with hchar | rfl | rfl
    · obtain ⟨htab, henter⟩ := hchar.ne
      rw [undone_character hok hchar hroom]
      constructor
      · intro hfull
        exact ⟨fun _ => hfull, fun h => absurd h htab, fun h => absurd h henter,
          fun h => absurd h henter, fun h => absurd h henter⟩
      · intro hundoable
        exact hundoable.character hchar
    · rw [undone_tab hok hroom]
      constructor
      · intro hmiddle
        exact ⟨fun hchar => absurd rfl hchar.ne.1, fun _ => hmiddle,
          fun henter => absurd henter (by decide), fun henter => absurd henter (by decide),
          fun henter => absurd henter (by decide)⟩
      · intro hundoable
        exact hundoable.tab rfl
    · have hempty : p.1.length_key ≠ 0 := fun hempty => hline ⟨rfl, hempty⟩
      rw [undone_enter hok hroom hempty]
      constructor
      · intro hway
        refine ⟨fun hchar => absurd rfl hchar.ne.2, fun htab => absurd htab (by decide),
          fun _ => hempty, fun _ hfeed => ?_, fun _ hfeed => ?_⟩
        · rw [if_pos hfeed] at hway
          exact hway
        · rw [if_neg hfeed] at hway
          exact hway
      · intro hundoable
        split_ifs with hfeed
        · exact hundoable.emptyLine rfl hfeed
        · exact hundoable.line rfl hfeed
  · rintro ⟨rfl, hempty⟩
    exact enter_on_empty hok hempty

/-- Enter behind the letter a. -/
theorem keystroke_undone_sample : Undone 0 ENTER typedLetter := by
  have hiff := (keystroke_undone_iff (p := (typedLetter, 0)) typedLetter_reachable
    (Or.inr (Or.inr rfl)) (by decide)).1 (by decide)
  refine hiff.mpr ⟨fun hchar => absurd rfl hchar.ne.2, fun htab => absurd htab (by decide),
    fun _ => by decide, fun _ hfeed => absurd hfeed (by decide), fun _ _ => ⟨?_, ?_, ?_⟩⟩
  · decide +kernel
  · decide +kernel
  · have hloc : typedLetter.current_location = 2 := by decide +kernel
    have hcells : ∀ k : Fin 80, typedLetter.charOrBlank (k + 1) ≠ typedLetter.lastKey := by
      decide +kernel
    show ∀ i, typedLetter.current_location / 2 ≤ i →
      i ≤ (typedLetter.current_location / 160 + 1) * 80 → _
    rw [hloc]
    intro i hlo hhi
    have hcell := hcells ⟨(i - 1).toNat, by omega⟩
    have hi : (((i - 1).toNat : ℕ) : ℤ) + 1 = i := by omega
    rw [hi] at hcell
    exact hcell

/-- The blank on the first screen. -/
def typedBlank : Console := process_key 0 0x39 (init_term_console Console.blank)

/-- A blank and Enter: Backspace finds a blank of the next row, and takes it for the end of the
line. -/
theorem keystroke_not_undone : ¬ ∀ p scode, typingSystem.ReachableWhere PressesKey p →
    Types scode p.1 → p.1.length_key < KEYBOARD_BUFFER_SIZE → Undone p.2 scode p.1 := by
  intro hall
  have hreach : typingSystem.ReachableWhere PressesKey (typedBlank, 0) := by
    apply System.ReachableWhere.step (s := (init_term_console Console.blank, 0))
      (e := .key 0x39)
    · exact .init ⟨⟨Console.blank, rfl⟩, rfl⟩
    · trivial
    · rw [step_key, process_char_character (by decide)]
      rfl
  have hundone : Undone 0 ENTER typedBlank :=
    hall (typedBlank, 0) ENTER hreach (Or.inr (Or.inr rfl)) (by decide)
  have hprocess : process_char 0 ENTER typedBlank =
      some (append_key 0 0x0a (handle_enter 0 typedBlank), 0) := by
    rw [process_char_enter, if_neg (by decide)]
  rw [undone_iff hprocess (append_key_live (handle_enter_lines 0 typedBlank)) (by decide)
    (by decide)] at hundone
  exact absurd hundone (by decide +kernel)

end Kernel391
