import Kernel391.BufferBounds
import Kernel391.CursorBounds
import Kernel391.LineDiscipline
import Kernel391.Lib.SearchDown

/-!
# Typing on a screen with output on it

Keys and program output move one cursor, each by routines of its own: `putc`, `handle_tab`,
`handle_enter`, `handle_scroll`, and `handle_backspace`, which guesses where the cursor was.
Here each of them is a function on screens, and `typingSystem` is everything that can happen
to the screens and lines of the three terminals: keys, output, terminal switches and the
clearing of the line. `TypingOk` holds in every state of a run whose steps keep the cursor on
the screen (`KeepsOnScreen`).
-/

namespace Kernel391

open TransitionSystem SearchDown

/-! ## Screens as the keyboard leaves them -/

/-- The attributes the drawing routines use. -/
def attributes : List UInt8 := [BLACK, 0xf, 0x3, 0x2]

theorem attrib_mem (t : TermId) : attrib t ∈ attributes := by
  unfold attrib
  split_ifs <;> decide

/-- No character of a line looks like an attribute, and it is the same signed and unsigned. -/
def KeyChar (c : UInt8) : Prop := c ∉ attributes ∧ c.toNat < 128

instance (c : UInt8) : Decidable (KeyChar c) := inferInstanceAs (Decidable (_ ∧ _))

theorem scancode_map_keyChar (mode scode : ℕ) : KeyChar (scancode_map mode scode) := by
  have hrows : ∀ row ∈ scancodeRows, ∀ c ∈ row, KeyChar c := by decide +kernel
  exact scancode_map_forall hrows (by decide) mode scode

/-- The characters of the table are no Tabs. -/
theorem scancode_map_ne_tab (mode scode : ℕ) : scancode_map mode scode ≠ 0x09 := by
  have hrows : ∀ row ∈ scancodeRows, ∀ c ∈ row, c ≠ 0x09 := by decide +kernel
  exact scancode_map_forall hrows (by decide) mode scode

/-- Every cell has one of the attributes. -/
def Attributed (cell : Fin SCREEN_SIZE → UInt8) : Prop :=
  ∀ i : Fin SCREEN_SIZE, i.val % 2 = 1 → cell i ∈ attributes

/-- The cursor is on a cell, and every cell has an attribute. -/
structure Screen.Drawn (v : Screen) : Prop where
  onGrid : v.OnGrid
  attributed : Attributed v.cell

section
variable {cell : Fin SCREEN_SIZE → UInt8}

theorem Attributed.scroll (h : Attributed cell) : Attributed (scrollCells cell) := by
  intro i hi
  unfold scrollCells
  rw [if_neg (by omega)]
  exact h i hi

/-- Drawing on a cell. -/
theorem Attributed.draw (h : Attributed cell) {o : ℤ} (ho : o % 2 = 0) (c : UInt8) {attr : UInt8}
    (hattr : attr ∈ attributes) : Attributed (drawCell o c attr cell) := by
  intro i hi
  unfold drawCell
  split_ifs with hnext hcell
  · exact hattr
  · omega
  · exact h i hi

end

/-! ## The routines of the keyboard, on screens -/

namespace Screen

/-- `handle_scroll`. -/
def scroll (v : Screen) : Screen := { cell := scrollCells v.cell, location := 3840 }

/-- A character at the cursor, which goes one column on. -/
def draw (c attr : UInt8) (v : Screen) : Screen :=
  { cell := drawCell v.location c attr v.cell, location := v.location + 2 }

/-- A column of a Tab. The first comparison lacks the two bytes of a cell. -/
def tabColumn (v : Screen) : Screen :=
  let v := if v.location = 2000 then v.scroll else v
  let v := v.draw 0x20 BLACK
  if v.location = 4000 then v.scroll else v

/-- `handle_tab`. -/
def tabKey (v : Screen) : Screen := v.tabColumn.tabColumn.tabColumn.tabColumn

/-- `handle_enter`. -/
def enterKey (v : Screen) : Screen :=
  if v.location.tdiv 160 + 1 = 25 then v.scroll
  else { v with location := (v.location.tdiv 160 + 1) * 80 * 2 }

variable {v : Screen}

theorem scroll_onGrid (v : Screen) : v.scroll.OnGrid := by
  constructor
  · show (0 : ℤ) ≤ 3840
    decide
  · show (3840 : ℤ) ≤ 3998
    decide
  · rfl

theorem Drawn.scroll (h : v.Drawn) : v.scroll.Drawn := ⟨v.scroll_onGrid, h.attributed.scroll⟩

theorem Drawn.tabColumn (h : v.Drawn) : v.tabColumn.Drawn := by
  have hstart : (if v.location = 2000 then v.scroll else v).Drawn := by
    split_ifs
    · exact h.scroll
    · exact h
  unfold Screen.tabColumn
  dsimp only
  generalize (if v.location = 2000 then v.scroll else v) = w at hstart
  have hgrid := hstart.onGrid
  have hcells : Attributed (w.draw 0x20 BLACK).cell :=
    hstart.attributed.draw hgrid.even _ (by decide)
  split_ifs with hend
  · exact ⟨scroll_onGrid _, hcells.scroll⟩
  · have hnext : (w.draw 0x20 BLACK).location = w.location + 2 := rfl
    have h0 := hgrid.nonneg
    have hle := hgrid.le
    have heven := hgrid.even
    exact ⟨⟨by omega, by omega, by omega⟩, hcells⟩

theorem Drawn.tabKey (h : v.Drawn) : v.tabKey.Drawn :=
  h.tabColumn.tabColumn.tabColumn.tabColumn

theorem Drawn.enterKey (h : v.Drawn) : v.enterKey.Drawn := by
  have h0 := h.onGrid.nonneg
  have hle := h.onGrid.le
  have hrow : v.location.tdiv 160 = v.location / 160 := Int.tdiv_eq_ediv_of_nonneg h0
  unfold Screen.enterKey
  rw [hrow]
  split_ifs
  · exact h.scroll
  · refine ⟨⟨?_, ?_, ?_⟩, h.attributed⟩
    · show 0 ≤ (v.location / 160 + 1) * 80 * 2
      omega
    · show (v.location / 160 + 1) * 80 * 2 ≤ 3998
      omega
    · show (v.location / 160 + 1) * 80 * 2 % 2 = 0
      omega

end Screen

/-- The cells under `emit`, wherever the cursor is. -/
theorem attributed_emit {v : Screen} (h : Attributed v.cell) (t : TermId) (c : UInt8) :
    Attributed (v.emit (attrib t) c).cell := by
  have hroom : Attributed (Screen.room v.pen).cell := by
    unfold Screen.room
    split_ifs
    · exact h.scroll
    · exact h
  unfold Screen.emit
  dsimp only
  split_ifs
  · unfold Screen.newline
    split_ifs
    · exact hroom.scroll
    · exact hroom
  · unfold Screen.tab
    split_ifs
    · exact hroom.scroll
    · exact hroom
  · refine Attributed.draw hroom ?_ c (attrib_mem t)
    omega

/-! ## They are the routines -/

section
variable {s : Console} {t : TermId}

theorem handle_scroll_screen (s : Console) : (handle_scroll s).screen = s.screen.scroll := by
  unfold handle_scroll scroll Console.screen Screen.scroll
  ext1
  · exact screenAt_scroll _ _
  · rfl

theorem tabColumn_screen (s : Console) : (tabColumn s).screen = s.screen.tabColumn := by
  have hdraw : ∀ s₁ : Console,
      ({ (s₁.store (VIDEO + s₁.current_location) (scancode_map 0 57)).store
        (VIDEO + s₁.current_location + 1) BLACK with
        current_location := s₁.current_location + 2 } : Console).screen =
          s₁.screen.draw 0x20 BLACK := by
    intro s₁
    unfold Console.screen Screen.draw
    ext1
    · exact screenAt_draw _ _ _ _ _
    · rfl
  unfold tabColumn Screen.tabColumn
  dsimp only
  have hstart : (if s.current_location = (NUM_COLS : ℤ) * NUM_ROWS then handle_scroll s
      else s).screen = if s.screen.location = 2000 then s.screen.scroll else s.screen := by
    show _ = if s.current_location = (NUM_COLS : ℤ) * NUM_ROWS then s.screen.scroll else s.screen
    rw [apply_ite Console.screen, handle_scroll_screen]
  rw [← hstart]
  generalize (if s.current_location = (NUM_COLS : ℤ) * NUM_ROWS then handle_scroll s
    else s) = s₁
  rw [← hdraw s₁, ← handle_scroll_screen, apply_ite Console.screen]
  rfl

theorem handle_tab_screen (h : s.length_key ≠ KEYBOARD_BUFFER_SIZE) :
    (handle_tab s).screen = s.screen.tabKey := by
  unfold handle_tab Screen.tabKey
  rw [if_neg h, tabColumn_screen, tabColumn_screen, tabColumn_screen, tabColumn_screen]

theorem handle_enter_screen (h : s.length_key ≠ KEYBOARD_BUFFER_SIZE) :
    (handle_enter t s).screen = s.screen.enterKey := by
  unfold handle_enter Screen.enterKey
  dsimp only
  rw [if_neg h]
  show (if s.current_location.tdiv 160 + 1 = 25 then handle_scroll s
    else { s with current_location := (s.current_location.tdiv 160 + 1) * 80 * 2 }).screen =
      if s.current_location.tdiv 160 + 1 = 25 then s.screen.scroll else _
  split_ifs
  · exact handle_scroll_screen s
  · rfl

/-- A character that is no Tab never leaves the cursor behind the last cell. -/
theorem echo_screen {c : UInt8} (h : s.screen.OnGrid) (hc : c ≠ 0x09) :
    (echo t c s).screen = s.screen.emit (attrib t) c := by
  have hcell : (NUM_COLS : ℤ) * NUM_ROWS * 2 = 4000 := rfl
  have hle : s.current_location ≤ 3998 := h.le
  have hnext := (h.emit (attrib t) hc).1.le
  rw [← putc_screen] at hnext
  have hprinted : (putc t c s).current_location ≤ 3998 := hnext
  unfold echo
  rw [hcell, if_pos (by omega)]
  dsimp only
  rw [if_neg (by omega)]
  exact putc_screen t c s

end

/-! ## Backspace -/

/-- The last character of the line. -/
def Console.lastKey (s : Console) : UInt8 := (s.keyboard_buffer (s.length_key - 1)).c

/-- The character before it. -/
def Console.keyBefore (s : Console) : UInt8 := (s.keyboard_buffer (s.length_key - 2)).c

/-- The character in a cell of video memory. -/
def Console.charAt (s : Console) (i : ℤ) : UInt8 := s.vmem (VIDEO + 2 * i)

/-- The comparison of the search loop: an unsigned byte of video memory with a signed
character. -/
def Matches (vmem : ℤ → UInt8) (c : UInt8) (o : ℤ) : Prop :=
  ((vmem (VIDEO + o)).toNat : ℤ) = c.toInt8.toInt

instance (vmem : ℤ → UInt8) (c : UInt8) : DecidablePred (Matches vmem c) := fun _ =>
  inferInstanceAs (Decidable (_ = _))

theorem searchBack_eq (vmem : ℤ → UInt8) (c : UInt8) (n : ℕ) (loc : ℤ) :
    searchBack vmem c n loc = searchDown (Matches vmem c) n loc := by
  induction n generalizing loc with
  | zero => rfl
  | succ n ih =>
    rw [searchBack, searchDown, ih]
    rfl

theorem matches_iff {vmem : ℤ → UInt8} {c : UInt8} {o : ℤ} (hc : KeyChar c) :
    Matches vmem c o ↔ vmem (VIDEO + o) = c := by
  have hsigned : c.toInt8.toInt = c.toNat := by
    show c.toBitVec.toInt = c.toNat
    rw [BitVec.toInt_eq_toNat_of_lt]
    · rfl
    · show 2 * c.toNat < 256
      have := hc.2
      omega
  unfold Matches
  rw [hsigned, ← UInt8.toNat_inj]
  omega

section
variable {s s' : Console} {t : TermId}

/-- On a drawn screen a character is found in a cell, not in an attribute. -/
theorem matches_even {c : UInt8} {o : ℤ} (hs : Attributed s.screen.cell) (hc : KeyChar c)
    (h0 : 0 ≤ o) (hlt : o < 4000) (h : Matches s.vmem c o) : o % 2 = 0 := by
  by_contra hodd
  have hattr := hs ⟨o.toNat, by simp only [SCREEN_SIZE, NUM_ROWS, NUM_COLS]; omega⟩
    (by show o.toNat % 2 = 1; omega)
  have hcell : s.screen.cell ⟨o.toNat, by simp only [SCREEN_SIZE, NUM_ROWS, NUM_COLS]; omega⟩ =
      s.vmem (VIDEO + o) := by
    show s.vmem (VIDEO + (o.toNat : ℤ)) = _
    rw [Int.toNat_of_nonneg h0]
  rw [hcell, (matches_iff hc).mp h] at hattr
  exact hc.1 hattr

/-- What the search finds: the last cell at or before the cursor with the character. -/
theorem searchBack_eq_some_iff {c : UInt8} {o : ℤ} (hs : s.screen.Drawn) (hc : KeyChar c) :
    searchBack s.vmem c (s.current_location + 1).toNat s.current_location = some o ↔
      ∃ i, o = 2 * i ∧ 0 ≤ i ∧ 2 * i ≤ s.current_location ∧ s.charAt i = c ∧
        ∀ j, i < j → 2 * j ≤ s.current_location → s.charAt j ≠ c := by
  have h0 : 0 ≤ s.current_location := hs.onGrid.nonneg
  have hle : s.current_location ≤ 3998 := hs.onGrid.le
  have hchar : ∀ i, Matches s.vmem c (2 * i) ↔ s.charAt i = c := fun i => matches_iff hc
  rw [searchBack_eq, searchDown_eq_some_iff]
  constructor
  · rintro ⟨hlo, hhi, ho, hlast⟩
    have heven := matches_even hs.attributed hc (by omega) (by omega) ho
    obtain ⟨i, rfl⟩ : ∃ i, o = 2 * i := ⟨o / 2, by omega⟩
    refine ⟨i, rfl, by omega, hhi, (hchar i).mp ho, fun j hij hj heq => ?_⟩
    exact hlast (2 * j) (by omega) hj ((hchar j).mpr heq)
  · rintro ⟨i, rfl, hi0, hi, heq, hlast⟩
    refine ⟨by omega, hi, (hchar i).mpr heq, fun j hij hj hmatch => ?_⟩
    have heven := matches_even hs.attributed hc (by omega) (by omega) hmatch
    obtain ⟨k, rfl⟩ : ∃ k, j = 2 * k := ⟨j / 2, by omega⟩
    exact hlast k (by omega) hj ((hchar k).mp hmatch)

theorem searchBack_isSome_iff {c : UInt8} (hs : s.screen.Drawn) (hc : KeyChar c) :
    (searchBack s.vmem c (s.current_location + 1).toNat s.current_location).isSome ↔
      ∃ i, 0 ≤ i ∧ 2 * i ≤ s.current_location ∧ s.charAt i = c := by
  have h0 : 0 ≤ s.current_location := hs.onGrid.nonneg
  have hle : s.current_location ≤ 3998 := hs.onGrid.le
  rw [searchBack_eq, searchDown_isSome_iff]
  constructor
  · rintro ⟨o, hlo, hhi, ho⟩
    have heven := matches_even hs.attributed hc (by omega) (by omega) ho
    obtain ⟨i, rfl⟩ : ∃ i, o = 2 * i := ⟨o / 2, by omega⟩
    exact ⟨i, by omega, hhi, (matches_iff hc).mp ho⟩
  · rintro ⟨i, hi0, hi, heq⟩
    exact ⟨2 * i, by omega, hi, (matches_iff hc).mpr heq⟩

/-- Backspace, where there is something to erase. -/
theorem handle_backspace_eq (hloc : s.current_location ≠ 0) (hempty : s.length_key ≠ 0)
    (hlen : s.length_key ≤ KEYBOARD_BUFFER_SIZE) :
    handle_backspace t s =
      if s.lastKey = 0x09 then
        some (eraseKey { s with current_location := s.current_location - 8 })
      else if s.lastKey = 0x0a then
        if s.length_key > 1 ∧ s.keyBefore = 0x0a then
          some (eraseKey { s with current_location := s.current_location - 160 })
        else
          (searchBack s.vmem (s.keyboard_buffer (keyIndex s 2)).c
            (s.current_location + 1).toNat s.current_location).map fun o =>
              eraseKey { s with current_location := o + 2 }
      else
        some (eraseKey
          { (s.store (VIDEO + (s.current_location - 2)) 0).store
              (VIDEO + (s.current_location - 2) + 1) (attrib t) with
            current_location := s.current_location - 2 }) := by
  have hlast : (s.keyboard_buffer (keyIndex s 1)).c = s.lastKey := by
    rw [keyIndex_last hlen hempty]
    rfl
  have hbefore : (s.length_key > 1 ∧ (s.keyboard_buffer (keyIndex s 2)).c = 0x0a) ↔
      (s.length_key > 1 ∧ s.keyBefore = 0x0a) := by
    refine and_congr_right fun htwo => ?_
    rw [keyIndex_before hlen htwo]
    rfl
  unfold handle_backspace
  rw [if_neg hloc, if_neg hempty]
  dsimp only
  simp only [hlast, hbefore]
  split_ifs
  · rfl
  · rfl
  · cases searchBack s.vmem (s.keyboard_buffer (keyIndex s 2)).c
      (s.current_location + 1).toNat s.current_location <;> rfl
  · rfl

/-- The search of Backspace for a character ends on a cell that has another one behind it. -/
def SearchEnds (s : Console) : Prop :=
  (∃ i, 0 ≤ i ∧ 2 * i ≤ s.current_location ∧ s.charAt i = s.keyBefore) ∧
    ¬ (s.current_location = 3998 ∧ s.charAt 1999 = s.keyBefore)

/-- The search is made: the last character is a line feed, and the one before it is not. -/
def Searches (s : Console) : Prop :=
  s.current_location ≠ 0 ∧ s.length_key ≠ 0 ∧ s.lastKey = 0x0a ∧
    ¬ (s.length_key > 1 ∧ s.keyBefore = 0x0a)

instance (s : Console) : Decidable (Searches s) := inferInstanceAs (Decidable (_ ∧ _ ∧ _ ∧ _))

/-- Backspace leaves the cursor on the screen: there are four columns for a Tab, a row for an
empty line, and the search for the end of any other line has something before the line feed
to look for, and finds it. -/
structure BackspaceFits (s : Console) : Prop where
  tab : s.length_key ≠ 0 → s.lastKey = 0x09 → s.current_location = 0 ∨ 8 ≤ s.current_location
  emptyLine : s.length_key > 1 → s.lastKey = 0x0a → s.keyBefore = 0x0a →
    s.current_location = 0 ∨ 160 ≤ s.current_location
  search : Searches s → 2 ≤ s.length_key ∧ SearchEnds s

theorem eraseKey_screen (s : Console) : (eraseKey s).screen = s.screen := rfl

/-- Backspace on the screen. -/
theorem handle_backspace_drawn (hs : s.screen.Drawn) (hlen : s.length_key ≤ KEYBOARD_BUFFER_SIZE)
    (hchars : ∀ c ∈ s.live, KeyChar c.c) (hfits : BackspaceFits s)
    (h : handle_backspace t s = some s') : s'.screen.Drawn := by
  have h0 : 0 ≤ s.current_location := hs.onGrid.nonneg
  have hle : s.current_location ≤ 3998 := hs.onGrid.le
  have heven : s.current_location % 2 = 0 := hs.onGrid.even
  rcases handle_backspace_cases h with ⟨-, rfl⟩ | ⟨hsome, -⟩
  · exact hs
  obtain ⟨hloc, hempty⟩ := not_or.mp hsome
  -- the cursor moves over cells that stay
  have hmove : ∀ loc : ℤ, 0 ≤ loc → loc ≤ 3998 → loc % 2 = 0 →
      (eraseKey { s with current_location := loc }).screen.Drawn := fun loc hlo hhi hev =>
    ⟨⟨hlo, hhi, hev⟩, hs.attributed⟩
  rw [handle_backspace_eq hloc hempty hlen] at h
  split_ifs at h with htab hfeed htwo
  · rw [Option.some.injEq] at h
    have hroom := (hfits.tab hempty htab).resolve_left hloc
    exact h ▸ hmove _ (by omega) (by omega) (by omega)
  · rw [Option.some.injEq] at h
    have hroom := (hfits.emptyLine htwo.1 hfeed htwo.2).resolve_left hloc
    exact h ▸ hmove _ (by omega) (by omega) (by omega)
  · obtain ⟨hlong, -, hend⟩ := hfits.search ⟨hloc, hempty, hfeed, htwo⟩
    have hbefore : (s.keyboard_buffer (keyIndex s 2)).c = s.keyBefore := by
      rw [keyIndex_before hlen hlong]
      rfl
    have hkey : KeyChar s.keyBefore := hchars _ (mem_cells (by omega))
    rw [hbefore, Option.map_eq_some_iff] at h
    obtain ⟨o, hfound, h⟩ := h
    obtain ⟨i, rfl, hi0, hi, hchar, -⟩ := (searchBack_eq_some_iff hs hkey).mp hfound
    -- not on the last cell
    have hlast : 2 * i ≠ 3998 := by
      intro hlast
      have hi1999 : i = 1999 := by omega
      exact hend ⟨by omega, hi1999 ▸ hchar⟩
    exact h ▸ hmove _ (by omega) (by omega) (by omega)
  · rw [Option.some.injEq] at h
    rw [← h, eraseKey_screen]
    refine ⟨⟨?_, ?_, ?_⟩, ?_⟩
    · show 0 ≤ s.current_location - 2
      omega
    · show s.current_location - 2 ≤ 3998
      omega
    · show (s.current_location - 2) % 2 = 0
      omega
    · have hcells := screenAt_draw s.vmem VIDEO (s.current_location - 2) 0 (attrib t)
      show Attributed (screenAt (Function.update (Function.update s.vmem
        (VIDEO + (s.current_location - 2)) 0) (VIDEO + (s.current_location - 2) + 1)
          (attrib t)) VIDEO)
      rw [hcells]
      exact hs.attributed.draw (by omega) 0 (attrib_mem t)

theorem clearScreen_attributed (t : TermId) (vmem : ℤ → UInt8) (base : ℤ) :
    Attributed (screenAt (clearScreen base t vmem) base) := by
  intro i hi
  have hlt := i.isLt
  unfold screenAt clearScreen
  rw [if_pos (by omega), if_neg (by omega)]
  exact attrib_mem t

/-- A key that keeps the cursor on the screen. -/
def KeyOnScreen (scode : ℕ) (s : Console) : Prop :=
  (IsCharacter scode s → s.length_key ≠ KEYBOARD_BUFFER_SIZE) ∧
    (scode = BACKSPACE → BackspaceFits s)

theorem process_char_drawn {scode i : ℕ} (hs : s.screen.Drawn)
    (hlen : s.length_key ≤ KEYBOARD_BUFFER_SIZE) (hchars : ∀ c ∈ s.live, KeyChar c.c)
    (hkey : KeyOnScreen scode s) (h : process_char t scode s = some (s', i)) :
    s'.screen.Drawn := by
  rcases process_char_ends h with ⟨hback, h⟩ | ⟨-, hroom, rfl⟩ | ⟨-, hroom, rfl⟩ | ⟨-, rfl⟩ |
    ⟨-, rfl⟩ | ⟨-, mode, cap, ctrl, alt, rfl⟩
  · exact handle_backspace_drawn hs hlen hchars (hkey.2 hback) h
  · show (handle_tab s).screen.Drawn
    rw [handle_tab_screen hroom]
    exact hs.tabKey
  · show (handle_enter t s).screen.Drawn
    rw [handle_enter_screen hroom]
    exact hs.enterKey
  · exact ⟨Screen.onGrid_of_zero rfl, clearScreen_attributed t s.vmem VIDEO⟩
  · unfold process_key
    dsimp only
    split_ifs
    · exact hs
    · have hne := scancode_map_ne_tab s.key_mode scode
      have hgrid : (append_key t (scancode_map s.key_mode scode) s).screen.OnGrid := hs.onGrid
      rw [echo_screen hgrid hne]
      exact ⟨(hs.onGrid.emit _ hne).1, attributed_emit hs.attributed t _⟩
  · exact hs

/-- Every key appends a character of this kind. -/
theorem typed_keyChar {scode : ℕ} {text : List UInt8} (h : ∀ c ∈ text, KeyChar c) :
    ∀ c ∈ typed scode s text, KeyChar c := by
  have happend : ∀ {b : UInt8}, KeyChar b → ∀ c ∈ text ++ [b], KeyChar c := by
    intro b hb c hc
    rw [List.mem_append, List.mem_singleton] at hc
    rcases hc with hc | rfl
    · exact h c hc
    · exact hb
  unfold typed
  split_ifs
  · exact h
  · exact fun c hc => h c (List.mem_of_mem_dropLast hc)
  · exact h
  · exact happend (by decide)
  · exact h
  · exact happend (by decide)
  · exact fun c hc => absurd hc List.not_mem_nil
  · exact h
  · exact happend (scancode_map_keyChar _ _)
  · exact h

theorem process_char_keyChar {scode i : ℕ} (hlen : s.length_key ≤ KEYBOARD_BUFFER_SIZE)
    (hchars : ∀ c ∈ s.live, KeyChar c.c) (h : process_char t scode s = some (s', i)) :
    ∀ c ∈ s'.live, KeyChar c.c := by
  have htext : ∀ c ∈ s.text, KeyChar c := by
    intro c hc
    obtain ⟨k, hk, rfl⟩ := List.mem_map.mp hc
    exact hchars k hk
  intro k hk
  have hmem : k.c ∈ s'.text := List.mem_map_of_mem hk
  rw [process_char_text hlen h] at hmem
  exact typed_keyChar htext _ hmem

/-! ## Output on a hidden terminal -/

/-- `putc_term` draws with the attribute of its terminal, wherever the cursor gets to. -/
theorem putc_term_drawn {c : UInt8} (hbase : (s.term t).vid_backup < 2 ^ 31)
    (h : (s.backup t).Drawn) : ((putc_term c t s).backup t).Drawn := by
  refine ⟨putc_term_onGrid h.onGrid, ?_⟩
  have h0 : 0 ≤ (s.term t).cursor_location := h.onGrid.nonneg
  have hhi : (s.term t).cursor_location < 4000 := lt_of_le_of_lt h.onGrid.le (by decide)
  by_cases hagrees : Agrees (s.term t).cursor_location c
  · have hnear : -160 < (s.term t).cursor_location := lt_of_lt_of_le (by decide) h0
    rw [putc_term_backup hnear hhi hbase hagrees]
    exact attributed_emit h.attributed t c
  · -- a Tab, which scrolls and draws nothing
    have hc : c = 0x09 := by
      by_contra hc
      exact hagrees (Or.inr ⟨h0, fun htab => hc htab.1⟩)
    have hroom : Attributed ((roomTerm t (startTerm t s)).pen t).cell := by
      rw [(roomTerm_start h0 hhi).1]
      unfold Screen.room
      split_ifs
      · exact h.attributed.scroll
      · exact h.attributed
    rw [putc_term_pieces, hc, if_neg (by decide), if_pos rfl, finishTerm_backup tabTerm_inside]
    show Attributed ((tabTerm t (roomTerm t (startTerm t s))).pen t).cell
    generalize roomTerm t (startTerm t s) = s₁ at hroom
    have hforward : ∀ s₂ : Console, ((forwardTerm 4 t s₂).pen t).cell = (s₂.pen t).cell := by
      intro s₂
      unfold forwardTerm Console.pen
      simp only [Console.modTerm_vmem, Console.modTerm_self]
    have hup : ((lineUpTerm t s₁).pen t).cell = scrollCells (s₁.pen t).cell := by
      unfold lineUpTerm Console.pen
      simp only [Console.modTerm_vmem, Console.modTerm_self]
      exact screenAt_scroll _ _
    unfold tabTerm
    rw [hforward]
    split_ifs
    · rw [hup]
      exact hroom.scroll
    · exact hroom

end

/-! ## Keys, output and terminal switches -/

inductive TypingEvent where
  /-- A key is pressed. -/
  | key (scode : ℕ)
  /-- A program prints a character on its terminal. -/
  | print (t : TermId) (c : UInt8)
  /-- Another terminal is displayed. -/
  | switch (new_term : TermId)
  /-- `terminal_read` or `halt` clears the line. -/
  | clearLine

/-- The console and the terminal on display. -/
def typingStep (p : Console × TermId) : TypingEvent → Option (Console × TermId)
  | .key scode => (process_char p.2 scode p.1).map fun r => (r.1, p.2)
  | .print t c => some (if t = p.2 then putc t c p.1 else putc_term c t p.1, p.2)
  | .switch new_term =>
    if new_term = p.2 then some p else some (switch_terminal p.2 new_term p.1, new_term)
  | .clearLine => some (clear_keyboard_buffer p.1, p.2)

/-- From the cleared screens of `init_term`. -/
def typingSystem : System (Console × TermId) TypingEvent where
  init p := (∃ s₀, p.1 = init_term_console s₀) ∧ p.2 = 0
  step := typingStep

theorem step_key (p : Console × TermId) (scode : ℕ) : typingSystem.step p (.key scode) =
    (process_char p.2 scode p.1).map fun r => (r.1, p.2) := rfl

/-- Runs of key presses only. -/
def PressesKey (_ : Console × TermId) : TypingEvent → Prop
  | .key _ => True
  | _ => False

instance (p : Console × TermId) (e : TypingEvent) : Decidable (PressesKey p e) :=
  match e with
  | .key _ => .isTrue trivial
  | .print _ _ => .isFalse id
  | .switch _ => .isFalse id
  | .clearLine => .isFalse id

/-- The steps that keep the cursor of the displayed terminal on its screen. -/
def KeepsOnScreen (p : Console × TermId) : TypingEvent → Prop
  | .key scode => KeyOnScreen scode p.1
  | .print t c =>
      ¬ (t = p.2 ∧ c = 0x09 ∧ 42 ≤ p.1.current_location ∧ p.1.current_location < 152)
  | _ => True

/-- All screens are drawn, with the cursor on them, and all lines fit. -/
structure TypingOk (p : Console × TermId) : Prop where
  placed : Placed p.1
  screen : ∀ t, (screenOf p.2 t p.1).Drawn
  length_le : ∀ t, (lineOf p.2 t p.1).length ≤ KEYBOARD_BUFFER_SIZE
  chars : ∀ t, ∀ c ∈ lineOf p.2 t p.1, KeyChar c.c

namespace TypingOk

variable {p q : Console × TermId} {s' : Console}

theorem live_screen (h : TypingOk p) : p.1.screen.Drawn := by
  have hscreen := h.screen p.2
  rw [screenOf_self] at hscreen
  exact hscreen

theorem live_length (h : TypingOk p) : p.1.length_key ≤ KEYBOARD_BUFFER_SIZE := by
  have hlen := h.length_le p.2
  rw [lineOf_self, length_live] at hlen
  exact hlen

theorem live_chars (h : TypingOk p) : ∀ c ∈ p.1.live, KeyChar c.c := by
  have hchars := h.chars p.2
  rw [lineOf_self] at hchars
  exact hchars

/-- Only the displayed terminal changes. -/
theorem live (h : TypingOk p) (hlive : LiveOnly p.1 s') (hscreen : s'.screen.Drawn)
    (hlen : s'.length_key ≤ KEYBOARD_BUFFER_SIZE) (hchars : ∀ c ∈ s'.live, KeyChar c.c) :
    TypingOk (s', p.2) := by
  have hothers : ∀ t, t ≠ p.2 → screenOf p.2 t s' = screenOf p.2 t p.1 ∧
      lineOf p.2 t s' = lineOf p.2 t p.1 := by
    intro t ht
    rw [screenOf_of_ne ht, screenOf_of_ne ht, lineOf_of_ne ht, lineOf_of_ne ht]
    exact ⟨hlive.backup h.placed t, hlive.saved_line t⟩
  refine ⟨hlive.placed h.placed, fun t => ?_, fun t => ?_, fun t => ?_⟩
  · by_cases ht : t = p.2
    · show (screenOf p.2 t s').Drawn
      rw [ht, screenOf_self]
      exact hscreen
    · show (screenOf p.2 t s').Drawn
      rw [(hothers t ht).1]
      exact h.screen t
  · by_cases ht : t = p.2
    · show (lineOf p.2 t s').length ≤ _
      rw [ht, lineOf_self, length_live]
      exact hlen
    · show (lineOf p.2 t s').length ≤ _
      rw [(hothers t ht).2]
      exact h.length_le t
  · by_cases ht : t = p.2
    · show ∀ c ∈ lineOf p.2 t s', KeyChar c.c
      rw [ht, lineOf_self]
      exact hchars
    · show ∀ c ∈ lineOf p.2 t s', KeyChar c.c
      rw [(hothers t ht).2]
      exact h.chars t

theorem key (h : TypingOk p) {scode i : ℕ} (hok : KeyOnScreen scode p.1)
    (hs : process_char p.2 scode p.1 = some (s', i)) : TypingOk (s', p.2) := by
  have hhi : p.1.current_location < 4000 :=
    lt_of_le_of_lt h.live_screen.onGrid.le (by decide)
  apply h.live (process_char_liveOnly hhi hs)
  · exact process_char_drawn h.live_screen h.live_length h.live_chars hok hs
  · have hedit := (process_char_effect h.live_length hok.1 hs).live
    have hlen := hedit.length_le (by rw [length_live]; exact h.live_length)
    rw [length_live] at hlen
    exact hlen
  · exact process_char_keyChar h.live_length h.live_chars hs

/-- Output on the displayed terminal. -/
theorem print_live (h : TypingOk p) {c : UInt8}
    (hok : ¬ (c = 0x09 ∧ 42 ≤ p.1.current_location ∧ p.1.current_location < 152)) :
    TypingOk (putc p.2 c p.1, p.2) := by
  have hhi : p.1.current_location < 4000 :=
    lt_of_le_of_lt h.live_screen.onGrid.le (by decide)
  have hlines : SameLines p.1 (putc p.2 c p.1) := putc_lines p.2 c p.1
  apply h.live (putc_liveOnly p.2 c hhi)
  · refine ⟨(putc_onGrid_iff h.live_screen.onGrid).mpr hok, ?_⟩
    rw [putc_screen]
    exact attributed_emit h.live_screen.attributed p.2 c
  · rw [← length_live, hlines.live, length_live]
    exact h.live_length
  · rw [hlines.live]
    exact h.live_chars

/-- Output on a hidden one. -/
theorem print_hidden (h : TypingOk p) {t : TermId} (ht : t ≠ p.2) (c : UInt8) :
    TypingOk (putc_term c t p.1, p.2) := by
  have hscreen := h.screen t
  rw [screenOf_of_ne ht] at hscreen
  have hhi : (p.1.term t).cursor_location < 4000 := lt_of_le_of_lt hscreen.onGrid.le (by decide)
  have hdraws : DrawsOn t p.1 (putc_term c t p.1) :=
    putc_term_draws (h.placed.base_lt t) (Or.inr ⟨hscreen.onGrid.nonneg, hhi⟩)
  have hline : ∀ u, lineOf p.2 u (putc_term c t p.1) = lineOf p.2 u p.1 := fun _ =>
    hdraws.lines.lineOf
  refine ⟨hdraws.placed h.placed, fun u => ?_, fun u => ?_, fun u => ?_⟩
  · by_cases hu : u = t
    · show (screenOf p.2 u (putc_term c t p.1)).Drawn
      rw [hu, screenOf_of_ne ht]
      exact putc_term_drawn (h.placed.base_lt t) hscreen
    · show (screenOf p.2 u (putc_term c t p.1)).Drawn
      rw [hdraws.screenOf h.placed hu]
      exact h.screen u
  · exact (hline u).symm ▸ h.length_le u
  · exact (hline u).symm ▸ h.chars u

/-- A switch changes no screen and no line. -/
theorem switch (h : TypingOk p) {new_term : TermId} (hne : p.2 ≠ new_term) :
    TypingOk (switch_terminal p.2 new_term p.1, new_term) := by
  refine ⟨h.placed.of_same (switch_terminal_screens _ _ _), fun t => ?_, fun t => ?_,
    fun t => ?_⟩
  · exact (switch_terminal_screenOf h.placed hne t).symm ▸ h.screen t
  · exact (switch_terminal_lineOf hne h.length_le t).symm ▸ h.length_le t
  · exact (switch_terminal_lineOf hne h.length_le t).symm ▸ h.chars t

theorem clearLine (h : TypingOk p) : TypingOk (clear_keyboard_buffer p.1, p.2) := by
  have hlive : LiveOnly p.1 (clear_keyboard_buffer p.1) := LiveOnly.of_eq rfl rfl
  apply h.live hlive
  · exact h.live_screen
  · exact Nat.zero_le _
  · exact fun c hc => absurd hc List.not_mem_nil

/-- One step. -/
theorem step (h : TypingOk p) {e : TypingEvent} (hok : KeepsOnScreen p e)
    (hs : typingSystem.step p e = some q) : TypingOk q := by
  have hstep : typingStep p e = some q := hs
  cases e with
  | key scode =>
    rw [typingStep, Option.map_eq_some_iff] at hstep
    obtain ⟨⟨s', i⟩, hkey, rfl⟩ := hstep
    exact h.key hok hkey
  | print t c =>
    rw [typingStep, Option.some.injEq] at hstep
    rw [← hstep]
    by_cases ht : t = p.2
    · rw [if_pos ht, ht]
      exact h.print_live fun hbad => hok ⟨ht, hbad⟩
    · rw [if_neg ht]
      exact h.print_hidden ht c
  | switch new_term =>
    rw [typingStep] at hstep
    split_ifs at hstep with hsame
    · exact Option.some.inj hstep ▸ h
    · rw [Option.some.injEq] at hstep
      exact hstep ▸ h.switch (Ne.symm hsame)
  | clearLine =>
    rw [typingStep, Option.some.injEq] at hstep
    exact hstep ▸ h.clearLine

end TypingOk

/-! ## The start -/

/-- Clearing one screen leaves the others alone. -/
theorem screenAt_clear_other {base other : ℤ} (t : TermId) (vmem : ℤ → UInt8)
    (h : base + SCREEN_SIZE ≤ other ∨ other + SCREEN_SIZE ≤ base) :
    screenAt (clearScreen base t vmem) other = screenAt vmem other := by
  apply screenAt_congr
  intro a hlo hhi
  unfold clearScreen
  rw [if_neg (by omega)]

theorem screenAt_copy_other {dest src other : ℤ} (vmem : ℤ → UInt8)
    (h : dest + SCREEN_SIZE ≤ other ∨ other + SCREEN_SIZE ≤ dest) :
    screenAt (copyScreen dest src vmem) other = screenAt vmem other := by
  apply screenAt_congr
  intro a hlo hhi
  unfold copyScreen
  rw [if_neg (by omega)]

/-- `init_term` clears the three saved screens and displays the first one. -/
theorem init_term_console_vmem (s₀ : Console) :
    (init_term_console s₀).vmem = copyScreen VIDEO VIDEOA (clearScreen VIDEOC 2
      (clearScreen VIDEOB 1 (clearScreen VIDEOA 0 s₀.vmem))) := rfl

theorem init_term_console_ok (s₀ : Console) : TypingOk (init_term_console s₀, 0) := by
  have hfirst : Attributed (screenAt (clearScreen VIDEOC 2
      (clearScreen VIDEOB 1 (clearScreen VIDEOA 0 s₀.vmem))) VIDEOA) := by
    rw [screenAt_clear_other _ _ (by decide), screenAt_clear_other _ _ (by decide)]
    exact clearScreen_attributed _ _ _
  refine ⟨init_term_console_placed s₀, fun t => ⟨Screen.onGrid_of_zero ?_, ?_⟩, fun t => ?_,
    fun t => ?_⟩
  · match t with
    | 0 => rfl
    | 1 => rfl
    | 2 => rfl
  · match t with
    | 0 =>
      show Attributed (screenAt (init_term_console s₀).vmem VIDEO)
      rw [init_term_console_vmem, screenAt_copy]
      exact hfirst
    | 1 =>
      show Attributed (screenAt (init_term_console s₀).vmem VIDEOB)
      rw [init_term_console_vmem, screenAt_copy_other _ (by decide),
        screenAt_clear_other _ _ (by decide)]
      exact clearScreen_attributed _ _ _
    | 2 =>
      show Attributed (screenAt (init_term_console s₀).vmem VIDEOC)
      rw [init_term_console_vmem, screenAt_copy_other _ (by decide)]
      exact clearScreen_attributed _ _ _
  · match t with
    | 0 => exact Nat.zero_le _
    | 1 => exact Nat.zero_le _
    | 2 => exact Nat.zero_le _
  · match t with
    | 0 => exact fun c hc => absurd hc List.not_mem_nil
    | 1 => exact fun c hc => absurd hc List.not_mem_nil
    | 2 => exact fun c hc => absurd hc List.not_mem_nil

/-- Every run whose steps keep the cursor on the screen. -/
theorem ReachableWhere.typingOk {p : Console × TermId}
    (h : typingSystem.ReachableWhere KeepsOnScreen p) : TypingOk p := by
  apply h.invariant (P := TypingOk)
  · rintro ⟨s, t⟩ ⟨⟨s₀, rfl⟩, rfl⟩
    exact init_term_console_ok s₀
  · intro p e q _ hp hok hstep
    exact hp.step hok hstep

end Kernel391
