import Kernel391.ConsoleTheorems
import Mathlib.Tactic.Ring

/-!
# What a terminal's output looks like

A `Screen` is what a user sees of a terminal: 2000 cells of character and attribute, and a
cursor. `Screen.emit` prints one character on it, whether the terminal is on display or
not. The source has two routines for that: `putc` on video memory, with signed coordinates,
and `putc_term` on a backup, with unsigned ones. `putc` always does what `emit` does
(`putc_screen`); `putc_term` does so except for a Tab in the right part of the first row
(`putc_term_backup_iff`), where the row number is decremented below zero.
-/

namespace Kernel391

/-! ## Screens -/

@[ext] structure Screen where
  cell : Fin SCREEN_SIZE → UInt8
  location : ℤ

/-- The characters one row up, and the last row blank; attributes stay. -/
def scrollCells (cell : Fin SCREEN_SIZE → UInt8) : Fin SCREEN_SIZE → UInt8 := fun i =>
  if i.val % 2 = 0 then
    if h : i.val + 2 * NUM_COLS < SCREEN_SIZE then cell ⟨i + 2 * NUM_COLS, h⟩ else 0
  else cell i

/-- A character and its attribute at an offset, as far as that is on the screen. -/
def drawCell (o : ℤ) (c attr : UInt8) (cell : Fin SCREEN_SIZE → UInt8) :
    Fin SCREEN_SIZE → UInt8 := fun i =>
  if (i.val : ℤ) = o + 1 then attr else if (i.val : ℤ) = o then c else cell i

/-- A screen with the cursor as column and row. -/
@[ext] structure Pen where
  cell : Fin SCREEN_SIZE → UInt8
  x : ℤ
  y : ℤ

namespace Pen

def lineUp (p : Pen) : Pen := { p with cell := scrollCells p.cell, y := p.y - 1 }

/-- Go `n` columns on, in the next row if the row ends. -/
def forward (n : ℤ) (p : Pen) : Pen :=
  { p with x := (p.x + n).tmod NUM_COLS, y := (p.y + (p.x + n).tdiv NUM_COLS).tmod NUM_ROWS }

def screen (p : Pen) : Screen := { cell := p.cell, location := 2 * (p.x + p.y * NUM_COLS) }

end Pen

namespace Screen

def pen (v : Screen) : Pen where
  cell := v.cell
  x := (v.location.tmod (NUM_COLS * 2)).tdiv 2
  y := v.location.tdiv (NUM_COLS * 2)

/-- The cursor on the last cell makes room first. -/
def room (p : Pen) : Pen :=
  if p.x = (NUM_COLS : ℤ) - 1 ∧ p.y = (NUM_ROWS : ℤ) - 1 then p.lineUp else p

def newline (p : Pen) : Pen :=
  let p := if p.y = (NUM_ROWS : ℤ) - 1 then p.lineUp else p
  { p with x := 0, y := p.y + 1 }

def tab (p : Pen) : Pen := (if p.x ≥ (NUM_ROWS : ℤ) - 4 then p.lineUp else p).forward 4

def character (attr c : UInt8) (p : Pen) : Pen :=
  { p with cell := drawCell (2 * (NUM_COLS * p.y + p.x)) c attr p.cell }.forward 1

/-- Print one character. -/
def emit (attr c : UInt8) (v : Screen) : Screen :=
  let p := room v.pen
  if c = 0x0a ∨ c = 0x0d then (newline p).screen
  else if c = 0x09 then (tab p).screen
  else (character attr c p).screen

/-- Print a string. -/
def emitAll (attr : UInt8) (bytes : List UInt8) (v : Screen) : Screen :=
  bytes.foldl (fun v c => v.emit attr c) v

end Screen

/-! ## Where screens lie in memory -/

/-- The screen that starts at address `base`. -/
def screenAt (vmem : ℤ → UInt8) (base : ℤ) : Fin SCREEN_SIZE → UInt8 := fun i => vmem (base + i)

/-- The screen on display. -/
def Console.screen (s : Console) : Screen :=
  { cell := screenAt s.vmem VIDEO, location := s.current_location }

/-- The screen saved for a terminal. -/
def Console.backup (s : Console) (t : TermId) : Screen :=
  { cell := screenAt s.vmem (s.term t).vid_backup, location := (s.term t).cursor_location }

section
variable {vmem vmem' : ℤ → UInt8} {base : ℤ}

theorem screenAt_congr
    (h : ∀ a, base ≤ a → a < base + SCREEN_SIZE → vmem' a = vmem a) :
    screenAt vmem' base = screenAt vmem base := by
  funext i
  have hi := i.isLt
  apply h
  · omega
  · omega

theorem screenAt_scroll (vmem : ℤ → UInt8) (base : ℤ) :
    screenAt (scrollScreen base vmem) base = scrollCells (screenAt vmem base) := by
  funext i
  have hi := i.isLt
  have hsize : SCREEN_SIZE = 4000 := rfl
  have hcols : NUM_COLS = 80 := rfl
  have hlast : 2 * ((NUM_ROWS : ℤ) - 1) * NUM_COLS = 3840 := rfl
  simp only [screenAt, scrollScreen, scrollCells, add_sub_cancel_left, hlast]
  by_cases heven : i.val % 2 = 0
  · rw [if_pos heven, if_pos (by omega)]
    by_cases hroom : i.val + 2 * NUM_COLS < SCREEN_SIZE
    · rw [dif_pos hroom, if_pos (by omega)]
      congr 1
      push_cast
      ring
    · rw [dif_neg hroom, if_neg (by omega)]
  · rw [if_neg heven, if_neg (by omega)]

theorem screenAt_draw (vmem : ℤ → UInt8) (base o : ℤ) (c attr : UInt8) :
    screenAt (Function.update (Function.update vmem (base + o) c) (base + o + 1) attr) base =
      drawCell o c attr (screenAt vmem base) := by
  funext i
  simp only [screenAt, drawCell, Function.update_apply]
  congr 1
  · rw [eq_iff_iff]
    omega
  · congr 1
    rw [eq_iff_iff]
    omega

theorem screenAt_copy (dest src : ℤ) (vmem : ℤ → UInt8) :
    screenAt (copyScreen dest src vmem) dest = screenAt vmem src := by
  funext i
  have hi := i.isLt
  simp only [screenAt, copyScreen, add_sub_cancel_left]
  rw [if_pos (by omega)]

end

/-! ## `putc` -/

/-- `putc` prints on the displayed screen. -/
theorem putc_screen (t : TermId) (c : UInt8) (s : Console) :
    (putc t c s).screen = s.screen.emit (attrib t) c := by
  unfold putc Screen.emit Screen.room Screen.newline Screen.tab Screen.character Console.screen
    Screen.pen Pen.lineUp Pen.forward Pen.screen scroll Console.store
  dsimp only
  split_ifs <;> simp only [screenAt_scroll, screenAt_draw]

/-! ## The pieces of `putc_term` -/

section
variable (s : Console) (t u : TermId) (f : TermConsole → TermConsole)

@[simp] theorem Console.modTerm_self : (s.modTerm t f).term t = f (s.term t) :=
  Function.update_self ..

theorem Console.modTerm_of_ne (h : u ≠ t) : (s.modTerm t f).term u = s.term u :=
  Function.update_of_ne h ..

@[simp] theorem Console.modTerm_vmem : (s.modTerm t f).vmem = s.vmem := rfl

@[simp] theorem Console.store_term (a : ℤ) (b : UInt8) : (s.store a b).term = s.term := rfl

@[simp] theorem Console.store_vmem (a : ℤ) (b : UInt8) :
    (s.store a b).vmem = Function.update s.vmem a b := rfl

end

/-- The cursor as column and row. -/
def startTerm (t : TermId) (s : Console) : Console :=
  s.modTerm t fun i => { i with
    cursor_x := UInt32.ofInt ((i.cursor_location.tmod (NUM_COLS * 2)).tdiv 2)
    cursor_y := UInt32.ofInt (i.cursor_location.tdiv (NUM_COLS * 2)) }

def lineUpTerm (t : TermId) (s : Console) : Console :=
  (scroll_term t s).modTerm t fun i => { i with cursor_y := i.cursor_y - 1 }

def roomTerm (t : TermId) (s : Console) : Console :=
  if (s.term t).cursor_x = 79 ∧ (s.term t).cursor_y = 24 then lineUpTerm t s else s

def newlineTerm (t : TermId) (s : Console) : Console :=
  (if (s.term t).cursor_y = 24 then lineUpTerm t s else s).modTerm t fun i =>
    { i with cursor_y := i.cursor_y + 1, cursor_x := 0 }

def forwardTerm (n : UInt32) (t : TermId) (s : Console) : Console :=
  s.modTerm t fun i => { i with
    cursor_y := (i.cursor_y + (i.cursor_x + n) / 80) % 25
    cursor_x := (i.cursor_x + n) % 80 }

def tabTerm (t : TermId) (s : Console) : Console :=
  forwardTerm 4 t (if (s.term t).cursor_x ≥ 21 then lineUpTerm t s else s)

def characterTerm (c : UInt8) (t : TermId) (s : Console) : Console :=
  let i := s.term t
  let a := (i.vid_backup + (2 * (80 * i.cursor_y + i.cursor_x)).toNat) % addressSpace
  forwardTerm 1 t ((s.store a c).store (a + 1) (attrib t))

def finishTerm (t : TermId) (s : Console) : Console :=
  s.modTerm t fun i => { i with
    cursor_location := (2 * (i.cursor_x + i.cursor_y * 80)).toInt32.toInt }

/-- The pieces make up the whole. -/
theorem putc_term_pieces (c : UInt8) (t : TermId) (s : Console) :
    putc_term c t s = finishTerm t
      (if c = 0x0a ∨ c = 0x0d then newlineTerm t (roomTerm t (startTerm t s))
        else if c = 0x09 then tabTerm t (roomTerm t (startTerm t s))
        else characterTerm c t (roomTerm t (startTerm t s))) := rfl

/-- The saved screen while `putc_term` is at work. -/
def Console.pen (s : Console) (t : TermId) : Pen where
  cell := screenAt s.vmem (s.term t).vid_backup
  x := (s.term t).cursor_x.toNat
  y := (s.term t).cursor_y.toNat

/-- The cursor of a pen is on the screen. -/
structure Pen.Inside (p : Pen) : Prop where
  x_nonneg : 0 ≤ p.x
  x_lt : p.x < 80
  y_nonneg : 0 ≤ p.y
  y_lt : p.y < 25

section
variable {t : TermId} {s : Console}

theorem toNat_eq_iff {a : UInt32} {n : ℕ} (h : n < 2 ^ 32) :
    a = UInt32.ofNat n ↔ (a.toNat : ℤ) = n := by
  rw [← UInt32.toNat_inj, UInt32.toNat_ofNat', Nat.mod_eq_of_lt h]
  omega

/-- Row and column of a cursor that is on the screen. -/
theorem Screen.pen_inside {v : Screen} (h0 : 0 ≤ v.location) (hlt : v.location < 4000) :
    v.pen.Inside ∧ v.pen.x = v.location % 160 / 2 ∧ v.pen.y = v.location / 160 := by
  have hx : v.pen.x = v.location % 160 / 2 := by
    show (v.location.tmod 160).tdiv 2 = _
    rw [Int.tmod_eq_emod_of_nonneg h0, Int.tdiv_eq_ediv_of_nonneg (by omega)]
  have hy : v.pen.y = v.location / 160 := by
    show v.location.tdiv 160 = _
    exact Int.tdiv_eq_ediv_of_nonneg h0
  refine ⟨⟨?_, ?_, ?_, ?_⟩, hx, hy⟩ <;> omega

theorem toNat_ofInt {a : ℤ} (h0 : 0 ≤ a) (hlt : a < 2 ^ 32) :
    ((UInt32.ofInt a).toNat : ℤ) = a := by
  unfold UInt32.ofInt
  rw [UInt32.toNat_ofNat', Int.emod_eq_of_lt h0 hlt]
  omega

theorem startTerm_pen (h : (s.backup t).pen.Inside) :
    (startTerm t s).pen t = (s.backup t).pen := by
  unfold Console.pen startTerm
  ext1
  · simp only [Console.modTerm_vmem, Console.modTerm_self]
    rfl
  · rw [Console.modTerm_self]
    exact toNat_ofInt h.x_nonneg (lt_trans h.x_lt (by decide))
  · rw [Console.modTerm_self]
    exact toNat_ofInt h.y_nonneg (lt_trans h.y_lt (by decide))

theorem lineUpTerm_pen (hy : 0 < (s.pen t).y) : (lineUpTerm t s).pen t = (s.pen t).lineUp := by
  have hrow : ((s.term t).cursor_y - 1).toNat = ((s.term t).cursor_y.toNat : ℤ) - 1 := by
    have hlt := (s.term t).cursor_y.toNat_lt
    unfold Console.pen at hy
    dsimp only at hy
    rw [UInt32.toNat_sub]
    simp only [UInt32.reduceToNat]
    omega
  unfold lineUpTerm Console.pen Pen.lineUp
  ext1
  · simp only [Console.modTerm_vmem, Console.modTerm_self]
    exact screenAt_scroll _ _
  · rw [Console.modTerm_self]
    rfl
  · rw [Console.modTerm_self]
    exact hrow

theorem roomTerm_pen : (roomTerm t s).pen t = Screen.room (s.pen t) := by
  have hx : (s.term t).cursor_x = 79 ↔ (s.pen t).x = (NUM_COLS : ℤ) - 1 :=
    toNat_eq_iff (n := 79) (by decide)
  have hy : (s.term t).cursor_y = 24 ↔ (s.pen t).y = (NUM_ROWS : ℤ) - 1 :=
    toNat_eq_iff (n := 24) (by decide)
  unfold roomTerm Screen.room
  simp only [hx, hy]
  split_ifs with hlast
  · apply lineUpTerm_pen
    rw [hlast.2]
    decide
  · rfl

/-- What is left after making room: never the last cell. -/
theorem Screen.room_inside {p : Pen} (h : p.Inside) : (Screen.room p).Inside := by
  obtain ⟨hx0, hx, hy0, hy⟩ := h
  have hrows : (NUM_ROWS : ℤ) = 25 := rfl
  unfold Screen.room
  split_ifs with hlast
  · exact ⟨hx0, hx, by show 0 ≤ p.y - 1; omega, by show p.y - 1 < 25; omega⟩
  · exact ⟨hx0, hx, hy0, hy⟩

theorem newlineTerm_pen (h : (s.pen t).y < 25) :
    (newlineTerm t s).pen t = Screen.newline (s.pen t) := by
  have hy : (s.term t).cursor_y = 24 ↔ (s.pen t).y = (NUM_ROWS : ℤ) - 1 :=
    toNat_eq_iff (n := 24) (by decide)
  -- the row below, in both arithmetics
  have hdown : ∀ s₁ : Console, (s₁.pen t).y < 25 →
      (s₁.modTerm t fun i => { i with cursor_y := i.cursor_y + 1, cursor_x := 0 }).pen t =
        { s₁.pen t with x := 0, y := (s₁.pen t).y + 1 } := by
    intro s₁ h₁
    unfold Console.pen at h₁ ⊢
    dsimp only at h₁
    ext1
    · simp only [Console.modTerm_vmem, Console.modTerm_self]
    · rw [Console.modTerm_self]
      rfl
    · simp only [Console.modTerm_self, UInt32.toNat_add, UInt32.reduceToNat]
      omega
  unfold newlineTerm Screen.newline
  simp only [hy]
  split_ifs with hlast
  · have hrow : (0 : ℤ) < (s.pen t).y := by
      rw [hlast]
      decide
    rw [hdown, lineUpTerm_pen hrow]
    rw [lineUpTerm_pen hrow]
    show (s.pen t).y - 1 < 25
    omega
  · exact hdown s h

/-- Both go forward alike from a row that is not negative. -/
theorem forwardTerm_pen {n : ℕ} (hn : n ≤ 4) (h : (s.pen t).Inside) :
    (forwardTerm (UInt32.ofNat n) t s).pen t = (s.pen t).forward n := by
  have hx : ((s.term t).cursor_x.toNat : ℤ) < 80 := h.x_lt
  have hy : ((s.term t).cursor_y.toNat : ℤ) < 25 := h.y_lt
  have hmod : n % 2 ^ 32 = n := by omega
  unfold forwardTerm Console.pen Pen.forward
  ext1
  · simp only [Console.modTerm_vmem, Console.modTerm_self]
  · simp only [Console.modTerm_self, UInt32.toNat_mod, UInt32.toNat_add, UInt32.toNat_ofNat',
      UInt32.reduceToNat, hmod, NUM_COLS]
    rw [Int.tmod_eq_emod_of_nonneg (by omega)]
    omega
  · simp only [Console.modTerm_self, UInt32.toNat_mod, UInt32.toNat_add, UInt32.toNat_div,
      UInt32.toNat_ofNat', UInt32.reduceToNat, hmod, NUM_COLS, NUM_ROWS]
    rw [Int.tdiv_eq_ediv_of_nonneg (by omega), Int.tmod_eq_emod_of_nonneg (by omega)]
    omega

/-- Unsigned remainders leave the cursor on the screen. -/
theorem forwardTerm_inside (n : UInt32) : ((forwardTerm n t s).pen t).Inside := by
  have hx : (((s.term t).cursor_x + n) % 80).toNat < 80 := by
    rw [UInt32.toNat_mod]
    exact Nat.mod_lt _ (by decide)
  have hy : (((s.term t).cursor_y + ((s.term t).cursor_x + n) / 80) % 25).toNat < 25 := by
    rw [UInt32.toNat_mod]
    exact Nat.mod_lt _ (by decide)
  have hterm : (forwardTerm n t s).term t = _ := Console.modTerm_self s t _
  unfold Console.pen
  rw [hterm]
  constructor
  · apply Int.natCast_nonneg
  · exact Int.ofNat_lt.mpr hx
  · apply Int.natCast_nonneg
  · exact Int.ofNat_lt.mpr hy

theorem tabTerm_inside : ((tabTerm t s).pen t).Inside := forwardTerm_inside 4

theorem characterTerm_inside (c : UInt8) : ((characterTerm c t s).pen t).Inside :=
  forwardTerm_inside 1

/-- In the last columns of the first row the row number wraps twice. -/
theorem tabTerm_pen_wrap (h : (s.pen t).Inside) (hx : 76 ≤ (s.pen t).x) (hy : (s.pen t).y = 0) :
    (forwardTerm 4 t (lineUpTerm t s)).pen t = (s.pen t).lineUp.forward 4 := by
  have hx0 : ((s.term t).cursor_x.toNat : ℤ) < 80 := h.x_lt
  have hx1 : (76 : ℤ) ≤ (s.term t).cursor_x.toNat := hx
  have hy0 : ((s.term t).cursor_y.toNat : ℤ) = 0 := hy
  have hnext : ((s.term t).cursor_x.toNat + (4 : ℤ)).tdiv 80 = 1 := by
    rw [Int.tdiv_eq_ediv_of_nonneg (by omega)]
    omega
  unfold forwardTerm lineUpTerm Console.pen Pen.forward Pen.lineUp
  ext1
  · simp only [Console.modTerm_vmem, Console.modTerm_self]
    exact screenAt_scroll _ _
  · simp only [Console.modTerm_self, UInt32.toNat_mod, UInt32.toNat_add, UInt32.reduceToNat,
      NUM_COLS]
    rw [Int.tmod_eq_emod_of_nonneg (by omega)]
    show ((((s.term t).cursor_x.toNat + 4) % 2 ^ 32 % 80 : ℕ) : ℤ) = _
    omega
  · simp only [Console.modTerm_self, UInt32.toNat_mod, UInt32.toNat_add, UInt32.toNat_div,
      UInt32.toNat_sub, UInt32.reduceToNat, NUM_COLS, NUM_ROWS]
    rw [show (((s.term t).cursor_x.toNat + (4 : ℤ)).tdiv (80 : ℕ)) = 1 from hnext, hy0]
    show ((((2 ^ 32 - 1 + (s.term t).cursor_y.toNat) % 2 ^ 32 +
      ((s.term t).cursor_x.toNat + 4) % 2 ^ 32 / 80) % 2 ^ 32 % 25 : ℕ) : ℤ) = 0
    omega

/-- Where a Tab does not end in row -1. -/
def Pen.TabFits (p : Pen) : Prop := p.x < 21 ∨ 76 ≤ p.x ∨ 0 < p.y

/-- A Tab moves alike unless it ends in a row below zero. -/
theorem tabTerm_pen (h : (s.pen t).Inside) (hfits : (s.pen t).TabFits) :
    (tabTerm t s).pen t = Screen.tab (s.pen t) := by
  have hx : (s.term t).cursor_x ≥ 21 ↔ (s.pen t).x ≥ (NUM_ROWS : ℤ) - 4 := by
    show 21 ≤ (s.term t).cursor_x ↔ (21 : ℤ) ≤ (s.term t).cursor_x.toNat
    rw [UInt32.le_iff_toNat_le]
    simp
  have hin := h
  obtain ⟨hx0, hxl, hy0, hyl⟩ := hin
  unfold tabTerm Screen.tab
  simp only [hx]
  split_ifs with hright
  · by_cases hpos : 0 < (s.pen t).y
    · have hforward := forwardTerm_pen (s := lineUpTerm t s) (n := 4) (t := t) (by decide)
      rw [lineUpTerm_pen hpos] at hforward
      exact hforward ⟨hx0, hxl, by show 0 ≤ (s.pen t).y - 1; omega,
        by show (s.pen t).y - 1 < 25; omega⟩
    · simp only [NUM_ROWS] at hright
      apply tabTerm_pen_wrap h
      · rcases hfits with hleft | hlast | hrow
        · omega
        · exact hlast
        · exact absurd hrow hpos
      · omega
  · exact forwardTerm_pen (n := 4) (by decide) h

/-- On the screen the address of the cursor does not wrap. -/
theorem backup_address (h : (s.pen t).Inside) (hbase : (s.term t).vid_backup < 2 ^ 31) :
    (((s.term t).vid_backup + (2 * (80 * (s.term t).cursor_y +
      (s.term t).cursor_x)).toNat) % addressSpace : ℕ) =
      ((s.term t).vid_backup : ℤ) +
        2 * (80 * (s.term t).cursor_y.toNat + (s.term t).cursor_x.toNat) := by
  have hx : ((s.term t).cursor_x.toNat : ℤ) < 80 := h.x_lt
  have hy : ((s.term t).cursor_y.toNat : ℤ) < 25 := h.y_lt
  simp only [UInt32.toNat_mul, UInt32.toNat_add, UInt32.reduceToNat, addressSpace]
  omega

theorem characterTerm_pen (c : UInt8) (h : (s.pen t).Inside)
    (hbase : (s.term t).vid_backup < 2 ^ 31) :
    (characterTerm c t s).pen t = Screen.character (attrib t) c (s.pen t) := by
  have haddr := backup_address h hbase
  unfold characterTerm
  dsimp only
  rw [haddr, show (1 : UInt32) = UInt32.ofNat 1 from rfl]
  have hforward := forwardTerm_pen (n := 1) (t := t) (by decide)
    (s := (s.store ((s.term t).vid_backup + 2 * (80 * (s.term t).cursor_y.toNat +
      (s.term t).cursor_x.toNat)) c).store ((s.term t).vid_backup +
      2 * (80 * (s.term t).cursor_y.toNat + (s.term t).cursor_x.toNat) + 1) (attrib t))
    ⟨h.x_nonneg, h.x_lt, h.y_nonneg, h.y_lt⟩
  rw [hforward]
  unfold Screen.character
  congr 1
  ext1
  · exact screenAt_draw _ _ _ _ _
  · rfl
  · rfl

theorem finishTerm_backup (h : (s.pen t).Inside) :
    (finishTerm t s).backup t = (s.pen t).screen := by
  have hx : ((s.term t).cursor_x.toNat : ℤ) < 80 := h.x_lt
  have hy : ((s.term t).cursor_y.toNat : ℤ) < 25 := h.y_lt
  have hloc : (2 * ((s.term t).cursor_x + (s.term t).cursor_y * 80)).toNat =
      2 * ((s.term t).cursor_x.toNat + (s.term t).cursor_y.toNat * 80) := by
    simp only [UInt32.toNat_mul, UInt32.toNat_add, UInt32.reduceToNat]
    omega
  unfold finishTerm Console.backup Console.pen Pen.screen
  ext1
  · simp only [Console.modTerm_vmem, Console.modTerm_self]
  · rw [Console.modTerm_self]
    show (2 * ((s.term t).cursor_x + (s.term t).cursor_y * 80)).toBitVec.toInt = _
    rw [BitVec.toInt_eq_toNat_of_lt]
    · show ((2 * ((s.term t).cursor_x + (s.term t).cursor_y * 80)).toNat : ℤ) = _
      rw [hloc]
      push_cast
      rfl
    · show 2 * (2 * ((s.term t).cursor_x + (s.term t).cursor_y * 80)).toNat < _
      omega

end

/-! ## `putc_term` -/

/-- Where `putc_term` prints what `emit` prints: at a cursor on the screen, but for a Tab in
columns 21 to 75 of the first row. A new line ignores the column, and is printed also where
such a Tab on the displayed screen has left the cursor. -/
def Agrees (location : ℤ) (c : UInt8) : Prop :=
  (c = 0x0a ∨ c = 0x0d) ∨ 0 ≤ location ∧ ¬ (c = 0x09 ∧ 42 ≤ location ∧ location < 152)

instance (location : ℤ) (c : UInt8) : Decidable (Agrees location c) := by
  unfold Agrees
  infer_instance

/-- A row's start, whatever the column was. -/
theorem newline_inside {p : Pen} (hy0 : 0 ≤ p.y) (hy : p.y < 25) : (Screen.newline p).Inside := by
  have hrows : (NUM_ROWS : ℤ) = 25 := rfl
  unfold Screen.newline
  split_ifs with hlast
  · exact ⟨le_rfl, by simp, by show 0 ≤ p.y - 1 + 1; omega, by show p.y - 1 + 1 < 25; omega⟩
  · exact ⟨le_rfl, by simp, by show 0 ≤ p.y + 1; omega, by show p.y + 1 < 25; omega⟩

/-- Making room does not decide where a Tab fits. -/
theorem room_tabFits {p : Pen} : (Screen.room p).TabFits ↔ p.TabFits := by
  have hcols : (NUM_COLS : ℤ) = 80 := rfl
  have hrows : (NUM_ROWS : ℤ) = 25 := rfl
  unfold Screen.room Pen.TabFits
  split_ifs with hlast
  · show p.x < 21 ∨ 76 ≤ p.x ∨ 0 < p.y - 1 ↔ _
    omega
  · exact Iff.rfl

/-- Such a Tab leaves the cursor above the screen. -/
theorem tab_not_fits {p : Pen} (h : p.Inside) (hfits : ¬ p.TabFits) :
    (Screen.tab p).screen.location < 0 := by
  obtain ⟨hx0, hx, hy0, hy⟩ := h
  unfold Pen.TabFits at hfits
  have hnext : (p.x + 4).tdiv 80 = 0 := by
    rw [Int.tdiv_eq_ediv_of_nonneg (by omega)]
    omega
  have hcol : (p.x + 4).tmod 80 = p.x + 4 := by
    rw [Int.tmod_eq_emod_of_nonneg (by omega)]
    omega
  have hrow : p.y = 0 := by omega
  unfold Screen.tab
  rw [if_pos (by simp only [NUM_ROWS]; omega)]
  show 2 * ((p.x + 4).tmod 80 + (p.y - 1 + (p.x + 4).tdiv 80).tmod 25 * 80) < 0
  rw [hcol, hnext, hrow]
  show 2 * (p.x + 4 + -1 * 80) < 0
  omega

section
variable {c : UInt8} {t : TermId} {s : Console}

/-- A cursor on the screen, once there is room. -/
theorem roomTerm_start (h0 : 0 ≤ (s.term t).cursor_location)
    (hhi : (s.term t).cursor_location < 4000) :
    (roomTerm t (startTerm t s)).pen t = Screen.room (s.backup t).pen ∧
      (Screen.room (s.backup t).pen).Inside := by
  obtain ⟨hin, -, -⟩ := Screen.pen_inside (v := s.backup t) h0 hhi
  rw [roomTerm_pen, startTerm_pen hin]
  exact ⟨rfl, Screen.room_inside hin⟩

/-- Left of the first row `putc_term` finds row 0, and some column far right. -/
theorem roomTerm_start_left (hlo : -160 < (s.term t).cursor_location)
    (hneg : (s.term t).cursor_location < 0) :
    ((roomTerm t (startTerm t s)).pen t).cell = (Screen.room (s.backup t).pen).cell ∧
      ((roomTerm t (startTerm t s)).pen t).y = 0 ∧ (Screen.room (s.backup t).pen).y = 0 := by
  have hrow : (s.term t).cursor_location.tdiv 160 = 0 := by
    have hneg' : (-(s.term t).cursor_location).tdiv 160 = 0 := by
      rw [Int.tdiv_eq_ediv_of_nonneg (by omega)]
      omega
    rw [Int.neg_tdiv] at hneg'
    omega
  have hpen : (s.backup t).pen.y = 0 := hrow
  have hroom : ∀ p : Pen, p.y = 0 → Screen.room p = p := by
    intro p hp
    unfold Screen.room
    rw [hp]
    exact if_neg fun hlast => absurd hlast.2 (by decide)
  have hstart : ((startTerm t s).pen t).y = 0 := by
    show (((startTerm t s).term t).cursor_y.toNat : ℤ) = 0
    unfold startTerm
    rw [Console.modTerm_self]
    show ((UInt32.ofInt ((s.term t).cursor_location.tdiv 160)).toNat : ℤ) = 0
    rw [hrow]
    rfl
  rw [roomTerm_pen, hroom _ hstart, hroom _ hpen]
  refine ⟨?_, hstart, hpen⟩
  show screenAt _ _ = screenAt _ _
  unfold startTerm
  rw [Console.modTerm_self]

theorem putc_term_newline (hc : c = 0x0a ∨ c = 0x0d) (hlo : -160 < (s.term t).cursor_location)
    (hhi : (s.term t).cursor_location < 4000) :
    (putc_term c t s).backup t = (s.backup t).emit (attrib t) c := by
  -- only the row matters
  have hpens : ((roomTerm t (startTerm t s)).pen t).cell = (Screen.room (s.backup t).pen).cell ∧
      ((roomTerm t (startTerm t s)).pen t).y = (Screen.room (s.backup t).pen).y ∧
      0 ≤ (Screen.room (s.backup t).pen).y ∧ (Screen.room (s.backup t).pen).y < 25 := by
    by_cases h0 : 0 ≤ (s.term t).cursor_location
    · obtain ⟨hpen, hin⟩ := roomTerm_start h0 hhi
      rw [hpen]
      exact ⟨rfl, rfl, hin.y_nonneg, hin.y_lt⟩
    · obtain ⟨hcell, hy, hy'⟩ := roomTerm_start_left hlo (by omega)
      rw [hy, hy']
      exact ⟨hcell, rfl, le_rfl, by decide⟩
  obtain ⟨hcell, hy, hy0, hy25⟩ := hpens
  have hnew : (newlineTerm t (roomTerm t (startTerm t s))).pen t =
      Screen.newline (Screen.room (s.backup t).pen) := by
    rw [newlineTerm_pen (by rw [hy]; exact hy25)]
    unfold Screen.newline Pen.lineUp
    simp only [hy, hcell]
    split_ifs
    · rfl
    · rw [hcell, hy]
  rw [putc_term_pieces, if_pos hc, finishTerm_backup, hnew]
  · unfold Screen.emit
    dsimp only
    rw [if_pos hc]
  · rw [hnew]
    exact newline_inside hy0 hy25

/-- On the screen a Tab fits but in columns 21 to 75 of the first row. -/
theorem tabFits_iff (h0 : 0 ≤ (s.term t).cursor_location)
    (hhi : (s.term t).cursor_location < 4000) :
    (s.backup t).pen.TabFits ↔
      ¬ (42 ≤ (s.term t).cursor_location ∧ (s.term t).cursor_location < 152) := by
  obtain ⟨-, hx, hy⟩ := Screen.pen_inside (v := s.backup t) h0 hhi
  have hx' : (s.backup t).pen.x = (s.term t).cursor_location % 160 / 2 := hx
  have hy' : (s.backup t).pen.y = (s.term t).cursor_location / 160 := hy
  unfold Pen.TabFits
  omega

/-- `putc_term` prints on the saved screen, where the two agree. -/
theorem putc_term_backup (hlo : -160 < (s.term t).cursor_location)
    (hhi : (s.term t).cursor_location < 4000) (hbase : (s.term t).vid_backup < 2 ^ 31)
    (hagrees : Agrees (s.term t).cursor_location c) :
    (putc_term c t s).backup t = (s.backup t).emit (attrib t) c := by
  by_cases hc : c = 0x0a ∨ c = 0x0d
  · exact putc_term_newline hc hlo hhi
  obtain ⟨h0, htab⟩ := hagrees.resolve_left hc
  obtain ⟨hpen, hin⟩ := roomTerm_start h0 hhi
  have hbase' : ((roomTerm t (startTerm t s)).term t).vid_backup < 2 ^ 31 := by
    unfold roomTerm lineUpTerm startTerm
    split_ifs <;> simpa [scroll_term] using hbase
  rw [putc_term_pieces]
  unfold Screen.emit
  dsimp only
  rw [if_neg hc, if_neg hc]
  by_cases ht : c = 0x09
  · have hfits : (Screen.room (s.backup t).pen).TabFits :=
      room_tabFits.mpr ((tabFits_iff h0 hhi).mpr fun hbad => htab ⟨ht, hbad⟩)
    rw [if_pos ht, if_pos ht, finishTerm_backup tabTerm_inside, tabTerm_pen, hpen]
    · rw [hpen]
      exact hin
    · rw [hpen]
      exact hfits
  · rw [if_neg ht, if_neg ht, finishTerm_backup (characterTerm_inside c),
      characterTerm_pen c (hpen ▸ hin) hbase', hpen]

/-- The two routines differ in one place: a Tab in columns 21 to 75 of the first row. -/
theorem putc_term_backup_iff (h0 : 0 ≤ (s.term t).cursor_location)
    (hhi : (s.term t).cursor_location < 4000) (hbase : (s.term t).vid_backup < 2 ^ 31) :
    (putc_term c t s).backup t = (s.backup t).emit (attrib t) c ↔
      ¬ (c = 0x09 ∧ 42 ≤ (s.term t).cursor_location ∧ (s.term t).cursor_location < 152) := by
  constructor
  · rintro heq ⟨hc, hrow⟩
    obtain ⟨-, hin⟩ := roomTerm_start h0 hhi
    have hfits : ¬ (Screen.room (s.backup t).pen).TabFits := fun hfits =>
      (tabFits_iff h0 hhi).mp (room_tabFits.mp hfits) hrow
    -- one cursor ends above the screen, the other on it
    have hneg : ((s.backup t).emit (attrib t) c).location < 0 := by
      unfold Screen.emit
      dsimp only
      rw [hc, if_neg (by decide), if_pos rfl]
      exact tab_not_fits hin hfits
    have hpos : 0 ≤ ((putc_term c t s).backup t).location := by
      have hend := tabTerm_inside (t := t) (s := roomTerm t (startTerm t s))
      have hx := hend.x_nonneg
      have hy := hend.y_nonneg
      rw [putc_term_pieces, hc, if_neg (by decide), if_pos rfl, finishTerm_backup hend]
      show 0 ≤ 2 * (_ + _ * (80 : ℤ))
      omega
    rw [heq] at hpos
    omega
  · intro hgood
    exact putc_term_backup (by omega) hhi hbase (Or.inr ⟨h0, hgood⟩)

end

/-! ## Where the cursor can get -/

/-- The cursor is on the screen, or in the row above it, where only a Tab takes it. -/
def Screen.Near (v : Screen) : Prop := -160 < v.location ∧ v.location < 4000

theorem Pen.Inside.screen_location {p : Pen} (h : p.Inside) :
    0 ≤ p.screen.location ∧ p.screen.location < 4000 := by
  obtain ⟨hx0, hx, hy0, hy⟩ := h
  show 0 ≤ 2 * (p.x + p.y * (80 : ℤ)) ∧ 2 * (p.x + p.y * (80 : ℤ)) < 4000
  omega

/-- Quotient and remainder of a column that may be left of the screen. -/
theorem column_cases {a : ℤ} (hlo : -80 < a) (hhi : a < 160) :
    (a < 80 ∧ a.tdiv 80 = 0 ∧ a.tmod 80 = a) ∨ (80 ≤ a ∧ a.tdiv 80 = 1 ∧ a.tmod 80 = a - 80) := by
  have hsum := Int.tmod_add_mul_tdiv a 80
  by_cases h0 : 0 ≤ a
  · have hdiv := Int.tdiv_eq_ediv_of_nonneg h0 (b := 80)
    omega
  · have hneg := Int.tdiv_eq_ediv_of_nonneg (a := -a) (b := 80) (by omega)
    rw [Int.neg_tdiv] at hneg
    omega

/-- Going forward keeps the cursor near, also from the row above the screen. -/
theorem Pen.forward_near {p : Pen} {n : ℤ} (hn0 : 0 < n) (hn : n ≤ 4) (hxlo : -80 < p.x)
    (hx : p.x < 80) (hylo : 0 ≤ p.y ∨ p.y = -1 ∧ 0 ≤ p.x) (hy : p.y < 25) :
    (p.forward n).screen.Near := by
  have hrow : ∀ b : ℤ, -1 ≤ b → b ≤ 25 → b.tmod 25 = if b = 25 then 0 else b := by
    intro b hlo hhi
    by_cases hb : b = -1
    · rw [hb]
      rfl
    · rw [Int.tmod_eq_emod_of_nonneg (by omega)]
      split_ifs <;> omega
  show -160 < 2 * ((p.x + n).tmod 80 + (p.y + (p.x + n).tdiv 80).tmod 25 * 80) ∧
    2 * ((p.x + n).tmod 80 + (p.y + (p.x + n).tdiv 80).tmod 25 * 80) < 4000
  rcases column_cases (a := p.x + n) (by omega) (by omega) with ⟨hlt, hdiv, hmod⟩ |
    ⟨hge, hdiv, hmod⟩
  · rw [hdiv, hmod, hrow _ (by omega) (by omega)]
    split_ifs <;> omega
  · rw [hdiv, hmod, hrow _ (by omega) (by omega)]
    split_ifs <;> omega

theorem Pen.Inside.near {p : Pen} (h : p.Inside) : p.screen.Near :=
  ⟨lt_of_lt_of_le (by decide) h.screen_location.1, h.screen_location.2⟩

/-- Row and column of a cursor that is near. -/
theorem Screen.pen_near {v : Screen} (h : v.Near) :
    -80 < v.pen.x ∧ v.pen.x < 80 ∧ 0 ≤ v.pen.y ∧ v.pen.y < 25 := by
  obtain ⟨hlo, hhi⟩ := h
  by_cases h0 : 0 ≤ v.location
  · obtain ⟨⟨hx0, hx, hy0, hy⟩, -, -⟩ := Screen.pen_inside h0 hhi
    exact ⟨by omega, hx, hy0, hy⟩
  · have hrow := Int.tdiv_eq_ediv_of_nonneg (a := -v.location) (b := 160) (by omega)
    have hmod := Int.tmod_eq_emod_of_nonneg (a := -v.location) (b := 160) (by omega)
    have hcol := Int.tdiv_eq_ediv_of_nonneg (a := (-v.location).tmod 160) (b := 2) (by omega)
    rw [Int.neg_tmod, Int.neg_tdiv] at hcol
    rw [Int.neg_tmod] at hmod
    rw [Int.neg_tdiv] at hrow
    show -80 < (v.location.tmod 160).tdiv 2 ∧ (v.location.tmod 160).tdiv 2 < 80 ∧
      0 ≤ v.location.tdiv 160 ∧ v.location.tdiv 160 < 25
    omega

/-- Printing keeps the cursor near. -/
theorem Screen.emit_near {v : Screen} (h : v.Near) (attr c : UInt8) : (v.emit attr c).Near := by
  have hcols : (NUM_COLS : ℤ) = 80 := rfl
  have hrows : (NUM_ROWS : ℤ) = 25 := rfl
  obtain ⟨hxlo, hx, hylo, hy⟩ := Screen.pen_near h
  have hroom : -80 < (Screen.room v.pen).x ∧ (Screen.room v.pen).x < 80 ∧
      0 ≤ (Screen.room v.pen).y ∧ (Screen.room v.pen).y < 25 := by
    unfold Screen.room
    split_ifs with hlast
    · exact ⟨hxlo, hx, by show 0 ≤ v.pen.y - 1; omega, by show v.pen.y - 1 < 25; omega⟩
    · exact ⟨hxlo, hx, hylo, hy⟩
  obtain ⟨hxlo', hx', hylo', hy'⟩ := hroom
  unfold Screen.emit
  dsimp only
  split_ifs
  · exact (newline_inside hylo' hy').near
  · unfold Screen.tab
    split_ifs with hright
    · apply Pen.forward_near (p := (Screen.room v.pen).lineUp) (by decide) (by decide) hxlo' hx'
      · show 0 ≤ (Screen.room v.pen).y - 1 ∨ (Screen.room v.pen).y - 1 = -1 ∧
          0 ≤ (Screen.room v.pen).x
        omega
      · show (Screen.room v.pen).y - 1 < 25
        omega
    · exact Pen.forward_near (by decide) (by decide) hxlo' hx' (Or.inl hylo') hy'
  · exact Pen.forward_near (by decide) (by decide) hxlo' hx' (Or.inl hylo') hy'

/-! ## What `putc_term` leaves alone -/

/-- Only the screen saved for `t` is drawn on. -/
structure DrawsOn (t : TermId) (s s' : Console) : Prop where
  lines : SameLines s s'
  base : ∀ u, (s'.term u).vid_backup = (s.term u).vid_backup
  location : s'.current_location = s.current_location
  cursor : ∀ u, u ≠ t → (s'.term u).cursor_location = (s.term u).cursor_location
  memory : ∀ a, a < ((s.term t).vid_backup : ℤ) ∨ (s.term t).vid_backup + SCREEN_SIZE ≤ a →
    s'.vmem a = s.vmem a

namespace DrawsOn

variable {t : TermId} {s s' s'' : Console}

theorem refl (t : TermId) (s : Console) : DrawsOn t s s :=
  ⟨SameLines.refl s, fun _ => rfl, rfl, fun _ _ => rfl, fun _ _ => rfl⟩

theorem trans (h : DrawsOn t s s') (h' : DrawsOn t s' s'') : DrawsOn t s s'' := by
  constructor
  · exact h.lines.trans h'.lines
  · exact fun u => (h'.base u).trans (h.base u)
  · exact h'.location.trans h.location
  · exact fun u hu => (h'.cursor u hu).trans (h.cursor u hu)
  · intro a ha
    rw [h'.memory a (by rw [h.base t]; exact ha)]
    exact h.memory a ha

/-- The cursor of the terminal moves. -/
theorem modCursor (f : TermConsole → TermConsole)
    (hf : ∀ i, (f i).vid_backup = i.vid_backup ∧ (f i).len_key_buf = i.len_key_buf ∧
      (f i).term_key_buf = i.term_key_buf) : DrawsOn t s (s.modTerm t f) := by
  refine ⟨⟨rfl, fun u => ?_⟩, fun u => ?_, rfl, fun u hu => ?_, fun _ _ => rfl⟩
  · unfold Console.saved
    by_cases hu : u = t
    · rw [hu, Console.modTerm_self, (hf _).2.1, (hf _).2.2]
    · rw [Console.modTerm_of_ne _ _ _ _ hu]
  · by_cases hu : u = t
    · rw [hu, Console.modTerm_self, (hf _).1]
    · rw [Console.modTerm_of_ne _ _ _ _ hu]
  · rw [Console.modTerm_of_ne _ _ _ _ hu]

/-- The memory of its screen changes. -/
theorem vmem {v : ℤ → UInt8}
    (h : ∀ a, a < ((s.term t).vid_backup : ℤ) ∨ (s.term t).vid_backup + SCREEN_SIZE ≤ a →
      v a = s.vmem a) : DrawsOn t s { s with vmem := v } :=
  ⟨⟨rfl, fun _ => rfl⟩, fun _ => rfl, rfl, fun _ _ => rfl, h⟩

end DrawsOn

theorem scrollScreen_outside {base a : ℤ} (vmem : ℤ → UInt8)
    (h : a < base ∨ base + SCREEN_SIZE ≤ a) : scrollScreen base vmem a = vmem a := by
  unfold scrollScreen
  dsimp only
  rw [if_neg (by omega)]

section
variable {c : UInt8} {t : TermId} {s : Console}

theorem lineUpTerm_draws : DrawsOn t s (lineUpTerm t s) := by
  have hscroll : DrawsOn t s (scroll_term t s) := DrawsOn.vmem fun a ha => scrollScreen_outside _ ha
  apply hscroll.trans
  apply DrawsOn.modCursor
  exact fun i => ⟨rfl, rfl, rfl⟩

theorem forwardTerm_draws (n : UInt32) : DrawsOn t s (forwardTerm n t s) :=
  DrawsOn.modCursor _ fun _ => ⟨rfl, rfl, rfl⟩

theorem roomTerm_start_draws : DrawsOn t s (roomTerm t (startTerm t s)) := by
  have hstart : DrawsOn t s (startTerm t s) := DrawsOn.modCursor _ fun _ => ⟨rfl, rfl, rfl⟩
  unfold roomTerm
  split_ifs
  · exact hstart.trans lineUpTerm_draws
  · exact hstart

theorem characterTerm_draws (h : (s.pen t).Inside) (hbase : (s.term t).vid_backup < 2 ^ 31) :
    DrawsOn t s (characterTerm c t s) := by
  have hx : ((s.term t).cursor_x.toNat : ℤ) < 80 := h.x_lt
  have hy : ((s.term t).cursor_y.toNat : ℤ) < 25 := h.y_lt
  have hsize : SCREEN_SIZE = 4000 := rfl
  have haddr := backup_address h hbase
  unfold characterTerm
  dsimp only
  rw [haddr]
  refine DrawsOn.trans ?_ (forwardTerm_draws 1)
  apply DrawsOn.vmem
  intro a ha
  simp only [Console.store_vmem]
  rw [Function.update_of_ne, Function.update_of_ne]
  · omega
  · omega

/-- At a cursor on the screen, or for a new line. -/
theorem putc_term_draws (hbase : (s.term t).vid_backup < 2 ^ 31)
    (h : (c = 0x0a ∨ c = 0x0d) ∨
      0 ≤ (s.term t).cursor_location ∧ (s.term t).cursor_location < 4000) :
    DrawsOn t s (putc_term c t s) := by
  have hfinish : ∀ s₁, DrawsOn t s s₁ → DrawsOn t s (finishTerm t s₁) := fun s₁ h₁ =>
    h₁.trans (DrawsOn.modCursor _ fun _ => ⟨rfl, rfl, rfl⟩)
  have hroom : DrawsOn t s (roomTerm t (startTerm t s)) := roomTerm_start_draws
  rw [putc_term_pieces]
  apply hfinish
  split_ifs with hc ht
  · refine hroom.trans ?_
    unfold newlineTerm
    split_ifs
    · exact lineUpTerm_draws.trans (DrawsOn.modCursor _ fun _ => ⟨rfl, rfl, rfl⟩)
    · exact DrawsOn.modCursor _ fun _ => ⟨rfl, rfl, rfl⟩
  · refine hroom.trans ?_
    unfold tabTerm
    split_ifs
    · exact lineUpTerm_draws.trans (forwardTerm_draws 4)
    · exact forwardTerm_draws 4
  · obtain ⟨h0, hhi⟩ := h.resolve_left hc
    obtain ⟨hpen, hin⟩ := roomTerm_start h0 hhi
    apply hroom.trans
    apply characterTerm_draws (hpen ▸ hin)
    rw [hroom.base t]
    exact hbase

/-- From a cursor on the screen, the cursor ends in some row and column of it. -/
theorem putc_term_pen (h0 : 0 ≤ (s.term t).cursor_location)
    (hhi : (s.term t).cursor_location < 4000) :
    ∃ q : Pen, q.Inside ∧ (putc_term c t s).backup t = q.screen := by
  have hfinish : ∀ s₁ : Console, (s₁.pen t).Inside →
      ∃ q : Pen, q.Inside ∧ (finishTerm t s₁).backup t = q.screen := fun s₁ h₁ =>
    ⟨s₁.pen t, h₁, finishTerm_backup h₁⟩
  obtain ⟨hpen, hin⟩ := roomTerm_start h0 hhi
  rw [putc_term_pieces]
  apply hfinish
  split_ifs
  · rw [newlineTerm_pen, hpen]
    · exact newline_inside hin.y_nonneg hin.y_lt
    · rw [hpen]
      exact hin.y_lt
  · exact tabTerm_inside
  · exact characterTerm_inside c

/-- A cursor on the screen stays on it. -/
theorem putc_term_inside (h0 : 0 ≤ (s.term t).cursor_location)
    (hhi : (s.term t).cursor_location < 4000) :
    0 ≤ ((putc_term c t s).term t).cursor_location ∧
      ((putc_term c t s).term t).cursor_location < 4000 := by
  obtain ⟨q, hq, heq⟩ := putc_term_pen (c := c) h0 hhi
  show 0 ≤ ((putc_term c t s).backup t).location ∧ ((putc_term c t s).backup t).location < 4000
  rw [heq]
  exact hq.screen_location

end

end Kernel391
