import Kernel391.Lib.Traced
import Kernel391.TextOutput

/-!
# Where output is written

`putcTraced` and `putcTermTraced` are the two output routines with the address of each store
into video memory noted. From a cleared screen all stores are on the screen of the terminal
that prints, and all cursors stay on their screens, unless a Tab is printed on the displayed
screen in columns 21 to 75 of the first row (`cursor_on_screen_iff`): the column is compared
with the number of rows there, and the row number goes below zero.
-/

namespace Kernel391

open Trace TransitionSystem

/-! ## Stores into video memory -/

/-- An address of the screen that starts at `base`. -/
def OnScreenAt (base a : ℤ) : Prop := base ≤ a ∧ a < base + SCREEN_SIZE

/-- The two loops of a scroll. -/
def scrollStores (base : ℤ) : List ℤ :=
  ((List.range ((NUM_ROWS - 1) * NUM_COLS)).map fun i : ℕ => base + 2 * i) ++
    (List.range NUM_COLS).map fun i : ℕ => base + 2 * ((NUM_ROWS - 1) * NUM_COLS + i)

/-- `memcpy` of a screen. -/
def copyStores (base : ℤ) : List ℤ := (List.range SCREEN_SIZE).map fun i : ℕ => base + i

def storeTraced (a : ℤ) (b : UInt8) (s : Console) : Traced ℤ Console := do
  Traced.emit a
  pure (s.store a b)

/-! ## `putc` -/

def startLive (s : Console) : Console :=
  { s with
    screen_x := (s.current_location.tmod (NUM_COLS * 2)).tdiv 2
    screen_y := s.current_location.tdiv (NUM_COLS * 2) }

/-- `scroll`, and the row number that goes with it. -/
def lineUpLive (s : Console) : Console := { scroll s with screen_y := s.screen_y - 1 }

def roomLive (s : Console) : Console :=
  if s.screen_x = (NUM_COLS : ℤ) - 1 ∧ s.screen_y = (NUM_ROWS : ℤ) - 1 then lineUpLive s else s

def downLive (s : Console) : Console := { s with screen_y := s.screen_y + 1, screen_x := 0 }

def newlineLive (s : Console) : Console :=
  downLive (if s.screen_y = (NUM_ROWS : ℤ) - 1 then lineUpLive s else s)

def forwardLive (n : ℤ) (s : Console) : Console :=
  { s with
    screen_y := (s.screen_y + (s.screen_x + n).tdiv NUM_COLS).tmod NUM_ROWS
    screen_x := (s.screen_x + n).tmod NUM_COLS }

def tabLive (s : Console) : Console :=
  forwardLive 4 (if s.screen_x ≥ (NUM_ROWS : ℤ) - 4 then lineUpLive s else s)

def characterLive (curr_term : TermId) (c : UInt8) (s : Console) : Console :=
  let a := VIDEO + 2 * (NUM_COLS * s.screen_y + s.screen_x)
  forwardLive 1 ((s.store a c).store (a + 1) (attrib curr_term))

def finishLive (s : Console) : Console :=
  { s with current_location := 2 * (s.screen_x + s.screen_y * NUM_COLS) }

/-- The pieces make up the whole. -/
theorem putc_pieces (t : TermId) (c : UInt8) (s : Console) :
    putc t c s = finishLive
      (if c = 0x0a ∨ c = 0x0d then newlineLive (roomLive (startLive s))
        else if c = 0x09 then tabLive (roomLive (startLive s))
        else characterLive t c (roomLive (startLive s))) := rfl

def lineUpTraced (s : Console) : Traced ℤ Console := do
  Traced.emits (scrollStores VIDEO)
  pure (lineUpLive s)

def roomTraced (s : Console) : Traced ℤ Console :=
  if s.screen_x = (NUM_COLS : ℤ) - 1 ∧ s.screen_y = (NUM_ROWS : ℤ) - 1 then lineUpTraced s
  else pure s

def newlineTraced (s : Console) : Traced ℤ Console := do
  let s ← (if s.screen_y = (NUM_ROWS : ℤ) - 1 then lineUpTraced s else pure s)
  pure (downLive s)

def tabTraced (s : Console) : Traced ℤ Console := do
  let s ← (if s.screen_x ≥ (NUM_ROWS : ℤ) - 4 then lineUpTraced s else pure s)
  pure (forwardLive 4 s)

def characterTraced (curr_term : TermId) (c : UInt8) (s : Console) :
    Traced ℤ Console := do
  let a := VIDEO + 2 * (NUM_COLS * s.screen_y + s.screen_x)
  let s ← storeTraced a c s
  let s ← storeTraced (a + 1) (attrib curr_term) s
  pure (forwardLive 1 s)

/-- `putc` with its stores. -/
def putcTraced (curr_term : TermId) (c : UInt8) (s : Console) : Traced ℤ Console := do
  let s ← roomTraced (startLive s)
  let s ←
    (if c = 0x0a ∨ c = 0x0d then newlineTraced s
      else if c = 0x09 then tabTraced s
      else characterTraced curr_term c s)
  pure (finishLive s)

theorem result_roomTraced (s : Console) : (roomTraced s).result = some (roomLive s) := by
  unfold roomTraced roomLive
  split_ifs <;> rfl

/-- The trace changes nothing. -/
theorem result_putcTraced (t : TermId) (c : UInt8) (s : Console) :
    (putcTraced t c s).result = some (putc t c s) := by
  have hnewline : ∀ s, (newlineTraced s).result = some (newlineLive s) := by
    intro s
    unfold newlineTraced newlineLive
    split_ifs <;> rfl
  have htab : ∀ s, (tabTraced s).result = some (tabLive s) := by
    intro s
    unfold tabTraced tabLive
    split_ifs <;> rfl
  have hcharacter : ∀ s, (characterTraced t c s).result = some (characterLive t c s) :=
    fun s => rfl
  rw [putc_pieces]
  unfold putcTraced
  simp only [Traced.result_bind, Traced.result_ite, result_roomTraced, hnewline, htab,
    hcharacter, Option.bind_some, Traced.result_pure]
  split_ifs <;> rfl

/-! ## `putc_term` -/

def lineUpTermTraced (t : TermId) (s : Console) : Traced ℤ Console := do
  Traced.emits (scrollStores (s.term t).vid_backup)
  pure (lineUpTerm t s)

def roomTermTraced (t : TermId) (s : Console) : Traced ℤ Console :=
  if (s.term t).cursor_x = 79 ∧ (s.term t).cursor_y = 24 then lineUpTermTraced t s else pure s

def newlineTermTraced (t : TermId) (s : Console) : Traced ℤ Console := do
  let s ← (if (s.term t).cursor_y = 24 then lineUpTermTraced t s else pure s)
  pure (s.modTerm t fun i => { i with cursor_y := i.cursor_y + 1, cursor_x := 0 })

def tabTermTraced (t : TermId) (s : Console) : Traced ℤ Console := do
  let s ← (if (s.term t).cursor_x ≥ 21 then lineUpTermTraced t s else pure s)
  pure (forwardTerm 4 t s)

def characterTermTraced (c : UInt8) (t : TermId) (s : Console) : Traced ℤ Console := do
  let i := s.term t
  let a : ℕ := (i.vid_backup + (2 * (80 * i.cursor_y + i.cursor_x)).toNat) % addressSpace
  let s ← storeTraced a c s
  let s ← storeTraced (a + 1) (attrib t) s
  pure (forwardTerm 1 t s)

/-- `putc_term` with its stores. -/
def putcTermTraced (c : UInt8) (t : TermId) (s : Console) : Traced ℤ Console := do
  let s ← roomTermTraced t (startTerm t s)
  let s ←
    (if c = 0x0a ∨ c = 0x0d then newlineTermTraced t s
      else if c = 0x09 then tabTermTraced t s
      else characterTermTraced c t s)
  pure (finishTerm t s)

theorem result_roomTermTraced (t : TermId) (s : Console) :
    (roomTermTraced t s).result = some (roomTerm t s) := by
  unfold roomTermTraced roomTerm
  split_ifs <;> rfl

theorem result_putcTermTraced (c : UInt8) (t : TermId) (s : Console) :
    (putcTermTraced c t s).result = some (putc_term c t s) := by
  have hnewline : ∀ s, (newlineTermTraced t s).result = some (newlineTerm t s) := by
    intro s
    unfold newlineTermTraced newlineTerm
    split_ifs <;> rfl
  have htab : ∀ s, (tabTermTraced t s).result = some (tabTerm t s) := by
    intro s
    unfold tabTermTraced tabTerm
    split_ifs <;> rfl
  have hcharacter : ∀ s, (characterTermTraced c t s).result = some (characterTerm c t s) :=
    fun s => rfl
  rw [putc_term_pieces]
  unfold putcTermTraced
  simp only [Traced.result_bind, Traced.result_ite, result_roomTermTraced, hnewline, htab,
    hcharacter, Option.bind_some, Traced.result_pure]
  split_ifs <;> rfl

/-! ## All stores are on the screen -/

theorem always_scrollStores (base : ℤ) : ∀ a ∈ scrollStores base, OnScreenAt base a := by
  have hsize : (SCREEN_SIZE : ℤ) = 4000 := rfl
  have hcells : (NUM_ROWS - 1) * NUM_COLS = 1920 := rfl
  have hlast : ((NUM_ROWS : ℤ) - 1) * NUM_COLS = 1920 := rfl
  have hcols : NUM_COLS = 80 := rfl
  intro a ha
  unfold scrollStores at ha
  rw [List.mem_append, List.mem_map, List.mem_map] at ha
  unfold OnScreenAt
  rcases ha with ⟨i, hi, rfl⟩ | ⟨i, hi, rfl⟩
  · rw [List.mem_range] at hi
    omega
  · rw [List.mem_range] at hi
    omega

theorem always_copyStores (base : ℤ) : ∀ a ∈ copyStores base, OnScreenAt base a := by
  intro a ha
  unfold copyStores at ha
  rw [List.mem_map] at ha
  obtain ⟨i, hi, rfl⟩ := ha
  rw [List.mem_range] at hi
  unfold OnScreenAt
  omega

section
variable {s : Console} {t : TermId} {c : UInt8}

theorem always_lineUpTraced (s : Console) : Traced.Always (OnScreenAt VIDEO) (lineUpTraced s) := by
  unfold lineUpTraced
  rw [Traced.always_bind]
  exact ⟨always_scrollStores _, fun _ _ => Traced.always_pure _⟩

/-- From a cursor on the screen. -/
theorem always_putcTraced (h0 : 0 ≤ s.current_location) (hhi : s.current_location < 4000) :
    Traced.Always (OnScreenAt VIDEO) (putcTraced t c s) := by
  have hsize : (SCREEN_SIZE : ℤ) = 4000 := rfl
  have hscroll : ∀ (p : Prop) [Decidable p] (s₁ : Console),
      Traced.Always (OnScreenAt VIDEO) (if p then lineUpTraced s₁ else pure s₁) := by
    intro p _ s₁
    split_ifs
    · exact always_lineUpTraced s₁
    · exact Traced.always_pure s₁
  obtain ⟨hin, -, -⟩ := Screen.pen_inside (v := s.screen) h0 hhi
  obtain ⟨hx0, hx, hy0, hy⟩ := Screen.room_inside hin
  have hcoords : (roomLive (startLive s)).screen_x = (Screen.room s.screen.pen).x ∧
      (roomLive (startLive s)).screen_y = (Screen.room s.screen.pen).y := by
    unfold roomLive Screen.room
    have hx : (startLive s).screen_x = s.screen.pen.x := rfl
    have hy : (startLive s).screen_y = s.screen.pen.y := rfl
    rw [hx, hy]
    split_ifs
    · exact ⟨rfl, rfl⟩
    · exact ⟨rfl, rfl⟩
  unfold putcTraced
  rw [Traced.always_bind, result_roomTraced]
  refine ⟨hscroll _ _, fun s₁ hs₁ => ?_⟩
  rw [Option.some.injEq] at hs₁
  rw [← hs₁, Traced.always_bind]
  refine ⟨?_, fun _ _ => Traced.always_pure _⟩
  split_ifs
  · unfold newlineTraced
    rw [Traced.always_bind]
    exact ⟨hscroll _ _, fun _ _ => Traced.always_pure _⟩
  · unfold tabTraced
    rw [Traced.always_bind]
    exact ⟨hscroll _ _, fun _ _ => Traced.always_pure _⟩
  · -- the cell at the cursor
    have hcell : OnScreenAt VIDEO (VIDEO + 2 * (80 * (roomLive (startLive s)).screen_y +
          (roomLive (startLive s)).screen_x)) ∧
        OnScreenAt VIDEO (VIDEO + 2 * (80 * (roomLive (startLive s)).screen_y +
          (roomLive (startLive s)).screen_x) + 1) := by
      rw [hcoords.1, hcoords.2]
      unfold OnScreenAt
      omega
    unfold characterTraced storeTraced
    simp only [Traced.always_bind, Traced.always_emit]
    exact ⟨⟨hcell.1, fun _ _ => Traced.always_pure _⟩, fun _ _ =>
      ⟨⟨hcell.2, fun _ _ => Traced.always_pure _⟩, fun _ _ => Traced.always_pure _⟩⟩

theorem always_putcTermTraced (hbase : (s.term t).vid_backup < 2 ^ 31)
    (h0 : 0 ≤ (s.term t).cursor_location) (hhi : (s.term t).cursor_location < 4000) :
    Traced.Always (OnScreenAt (s.term t).vid_backup) (putcTermTraced c t s) := by
  have hsize : (SCREEN_SIZE : ℤ) = 4000 := rfl
  have hscroll : ∀ (p : Prop) [Decidable p] (s₁ : Console),
      (s₁.term t).vid_backup = (s.term t).vid_backup →
      Traced.Always (OnScreenAt (s.term t).vid_backup)
        (if p then lineUpTermTraced t s₁ else pure s₁) := by
    intro p _ s₁ hs₁
    split_ifs
    · unfold lineUpTermTraced
      rw [Traced.always_bind, hs₁]
      exact ⟨always_scrollStores _, fun _ _ => Traced.always_pure _⟩
    · exact Traced.always_pure s₁
  obtain ⟨hpen, hin⟩ := roomTerm_start h0 hhi
  have hbase₁ : ((roomTerm t (startTerm t s)).term t).vid_backup = (s.term t).vid_backup :=
    roomTerm_start_draws.base t
  unfold putcTermTraced
  rw [Traced.always_bind, result_roomTermTraced]
  refine ⟨hscroll _ _ ?_, fun s₁ hs₁ => ?_⟩
  · unfold startTerm
    rw [Console.modTerm_self]
  rw [Option.some.injEq] at hs₁
  rw [← hs₁, Traced.always_bind]
  refine ⟨?_, fun _ _ => Traced.always_pure _⟩
  split_ifs
  · unfold newlineTermTraced
    rw [Traced.always_bind]
    exact ⟨hscroll _ _ hbase₁, fun _ _ => Traced.always_pure _⟩
  · unfold tabTermTraced
    rw [Traced.always_bind]
    exact ⟨hscroll _ _ hbase₁, fun _ _ => Traced.always_pure _⟩
  · obtain ⟨hx0, hx, hy0, hy⟩ := hin
    -- the cell at the cursor
    have hcursor : ((roomTerm t (startTerm t s)).pen t).Inside := hpen ▸ ⟨hx0, hx, hy0, hy⟩
    have haddr := backup_address hcursor (hbase₁ ▸ hbase)
    have hx' : (((roomTerm t (startTerm t s)).term t).cursor_x.toNat : ℤ) < 80 := hcursor.x_lt
    have hy' : (((roomTerm t (startTerm t s)).term t).cursor_y.toNat : ℤ) < 25 := hcursor.y_lt
    unfold characterTermTraced storeTraced
    simp only [Traced.always_bind, Traced.always_emit]
    rw [haddr, hbase₁]
    refine ⟨⟨?_, fun _ _ => Traced.always_pure _⟩, fun _ _ =>
      ⟨⟨?_, fun _ _ => Traced.always_pure _⟩, fun _ _ => Traced.always_pure _⟩⟩
    · unfold OnScreenAt
      omega
    · unfold OnScreenAt
      omega

end

/-! ## The cursor -/

theorem Pen.Inside.onGrid {p : Pen} (h : p.Inside) : p.screen.OnGrid := by
  obtain ⟨h0, hlt⟩ := h.screen_location
  have heven : p.screen.location % 2 = 0 := by
    show 2 * (p.x + p.y * (80 : ℤ)) % 2 = 0
    omega
  exact ⟨h0, by omega, heven⟩

theorem Screen.OnGrid.of_location {v w : Screen} (h : v.OnGrid) (heq : w.location = v.location) :
    w.OnGrid := by
  constructor
  · rw [heq]
    exact h.nonneg
  · rw [heq]
    exact h.le
  · rw [heq]
    exact h.even

theorem Screen.onGrid_of_zero {v : Screen} (h : v.location = 0) : v.OnGrid := by
  constructor
  · rw [h]
  · rw [h]
    decide
  · rw [h]
    rfl

/-- A Tab that fits ends on the screen. -/
theorem tab_inside {p : Pen} (h : p.Inside) (hfits : p.TabFits) : (Screen.tab p).Inside := by
  obtain ⟨hx0, hx, hy0, hy⟩ := h
  unfold Pen.TabFits at hfits
  -- four columns on, from a row that the column has not left
  have hforward : ∀ y : ℤ, 0 ≤ y + (p.x + 4) / 80 → y + (p.x + 4) / 80 < 25 →
      (Pen.forward 4 { p with y := y }).Inside := by
    intro y hlo hhi
    have hdiv : (p.x + 4).tdiv 80 = (p.x + 4) / 80 := Int.tdiv_eq_ediv_of_nonneg (by omega)
    have hmod : (p.x + 4).tmod 80 = (p.x + 4) % 80 := Int.tmod_eq_emod_of_nonneg (by omega)
    have hrow : (y + (p.x + 4) / 80).tmod 25 = (y + (p.x + 4) / 80) % 25 :=
      Int.tmod_eq_emod_of_nonneg hlo
    constructor
    · show 0 ≤ (p.x + 4).tmod 80
      omega
    · show (p.x + 4).tmod 80 < 80
      omega
    · show 0 ≤ (y + (p.x + 4).tdiv 80).tmod 25
      rw [hdiv, hrow]
      omega
    · show (y + (p.x + 4).tdiv 80).tmod 25 < 25
      rw [hdiv, hrow]
      omega
  unfold Screen.tab
  split_ifs with hright
  · have hcol : 21 ≤ p.x := hright
    obtain ⟨hcells, hinside⟩ : 0 ≤ p.y - 1 + (p.x + 4) / 80 ∧ p.y - 1 + (p.x + 4) / 80 < 25 := by
      omega
    have hin := hforward (p.y - 1) hcells hinside
    exact ⟨hin.x_nonneg, hin.x_lt, hin.y_nonneg, hin.y_lt⟩
  · have hcol : ¬ 21 ≤ p.x := hright
    exact hforward p.y (by omega) (by omega)

section
variable {s : Console} {t : TermId} {c : UInt8} {v : Screen}

/-- What a Tab does to a cursor on the screen. -/
theorem Screen.OnGrid.tab_iff (h : v.OnGrid) (attr : UInt8) :
    (v.emit attr 0x09).OnGrid ↔ ¬ (42 ≤ v.location ∧ v.location < 152) := by
  have h0 := h.nonneg
  have hle := h.le
  obtain ⟨hin, hx, hy⟩ := Screen.pen_inside h0 (by omega)
  have hroom := Screen.room_inside hin
  have hfits : (Screen.room v.pen).TabFits ↔ ¬ (42 ≤ v.location ∧ v.location < 152) := by
    rw [room_tabFits]
    unfold Pen.TabFits
    omega
  have hemit : v.emit attr 0x09 = (Screen.tab (Screen.room v.pen)).screen := by
    unfold Screen.emit
    dsimp only
    rw [if_neg (by decide), if_pos rfl]
  rw [hemit, ← hfits]
  constructor
  · intro hgrid
    by_contra hnot
    have hneg := tab_not_fits hroom hnot
    have hpos := hgrid.nonneg
    omega
  · intro hyes
    exact (tab_inside hroom hyes).onGrid

/-- `putc` keeps the cursor on the screen, but for such a Tab. -/
theorem putc_onGrid_iff (h : s.screen.OnGrid) :
    (putc t c s).screen.OnGrid ↔
      ¬ (c = 0x09 ∧ 42 ≤ s.current_location ∧ s.current_location < 152) := by
  rw [putc_screen]
  by_cases hc : c = 0x09
  · rw [hc, h.tab_iff]
    simp only [true_and]
    exact Iff.rfl
  · exact iff_of_true (h.emit _ hc).1 fun htab => hc htab.1

theorem putc_term_onGrid (h : (s.backup t).OnGrid) : ((putc_term c t s).backup t).OnGrid := by
  obtain ⟨q, hq, heq⟩ := putc_term_pen (c := c) h.nonneg (lt_of_le_of_lt h.le (by decide))
  rw [heq]
  exact hq.onGrid

end

/-! ## Output and terminal switches -/

/-- A terminal prints a byte, or another terminal is displayed. -/
inductive PrintEvent where
  | print (t : TermId) (c : UInt8)
  | switch (new : TermId)

/-- One event, for the console and the terminal on display. -/
def printStep (p : Console × TermId) : PrintEvent → Traced ℤ (Console × TermId)
  | .print t c => do
    let s ← (if t = p.2 then putcTraced t c p.1 else putcTermTraced c t p.1)
    pure (s, p.2)
  | .switch new => do
    Traced.emits (copyStores (p.1.term p.2).vid_backup)
    Traced.emits (copyStores VIDEO)
    pure (switch_terminal p.2 new p.1, new)

/-- The cleared terminals have their cursors in the upper left corner. -/
def printSystem : System (Console × TermId) PrintEvent where
  init p := Placed p.1 ∧ p.1.current_location = 0 ∧ ∀ t, (p.1.term t).cursor_location = 0
  step p e := (printStep p e).result

/-- The screens an event writes on: that of the terminal that prints, and for a switch the
ones it copies to. -/
def writtenScreens (p : Console × TermId) : PrintEvent → List ℤ
  | .print t _ => [if t = p.2 then (VIDEO : ℤ) else (p.1.term t).vid_backup]
  | .switch _ => [((p.1.term p.2).vid_backup : ℤ), VIDEO]

/-- All cursors are on a cell of their screens. -/
structure OnScreen (s : Console) : Prop where
  live : s.screen.OnGrid
  saved : ∀ t, (s.backup t).OnGrid

/-- An event leaves all cursors on their screens and writes only on its screens. -/
def StaysOnScreen (p : Console × TermId) (e : PrintEvent) : Prop :=
  (∀ q, printSystem.step p e = some q → OnScreen q.1) ∧
    ∀ a ∈ (printStep p e).events, ∃ base ∈ writtenScreens p e, OnScreenAt base a

/-- No Tab is printed on the displayed screen in columns 21 to 75 of the first row. -/
def TabHasRoom (p : Console × TermId) : PrintEvent → Prop
  | .print t c =>
      ¬ (t = p.2 ∧ c = 0x09 ∧ 42 ≤ p.1.current_location ∧ p.1.current_location < 152)
  | .switch _ => True

section
variable {p q : Console × TermId} {e : PrintEvent}

theorem printStep_live {t : TermId} {c : UInt8} (ht : t = p.2) :
    printStep p (.print t c) = (putcTraced t c p.1 >>= fun s => pure (s, p.2)) := by
  show ((if t = p.2 then putcTraced t c p.1 else putcTermTraced c t p.1) >>= _) = _
  rw [if_pos ht]

theorem printStep_hidden {t : TermId} {c : UInt8} (ht : t ≠ p.2) :
    printStep p (.print t c) = (putcTermTraced c t p.1 >>= fun s => pure (s, p.2)) := by
  show ((if t = p.2 then putcTraced t c p.1 else putcTermTraced c t p.1) >>= _) = _
  rw [if_neg ht]

theorem step_live {t : TermId} {c : UInt8} (ht : t = p.2) :
    printSystem.step p (.print t c) = some (putc t c p.1, p.2) := by
  show (printStep p (.print t c)).result = _
  rw [printStep_live ht, Traced.result_bind, result_putcTraced]
  rfl

theorem step_hidden {t : TermId} {c : UInt8} (ht : t ≠ p.2) :
    printSystem.step p (.print t c) = some (putc_term c t p.1, p.2) := by
  show (printStep p (.print t c)).result = _
  rw [printStep_hidden ht, Traced.result_bind, result_putcTermTraced]
  rfl

theorem step_switch (new : TermId) :
    printSystem.step p (.switch new) = some (switch_terminal p.2 new p.1, new) := rfl

theorem switch_onScreen {old new : TermId} {s : Console} (h : OnScreen s) :
    OnScreen (switch_terminal old new s) := by
  have hsaved : ∀ t, ((switch_terminal old new s).backup t).OnGrid := by
    intro t
    have hlocation := switch_terminal_cursor_location old new t s
    by_cases ht : t = old
    · rw [if_pos ht] at hlocation
      exact h.live.of_location hlocation
    · rw [if_neg ht] at hlocation
      exact (h.saved t).of_location hlocation
  -- the live cursor is the one restored
  exact ⟨(hsaved new).of_location rfl, hsaved⟩

/-- Output by `putc`. -/
theorem stays_print_live {t : TermId} {c : UInt8} (h : OnScreen p.1) (ht : t = p.2) :
    StaysOnScreen p (.print t c) ↔ TabHasRoom p (.print t c) := by
  have hlive0 := h.live.nonneg
  have hlivehi : p.1.current_location < 4000 := lt_of_le_of_lt h.live.le (by decide)
  have hstores : ∀ a ∈ (printStep p (.print t c)).events,
      ∃ base ∈ writtenScreens p (.print t c), OnScreenAt base a := by
    intro a ha
    rw [printStep_live ht, Traced.mem_events_bind_pure] at ha
    refine ⟨VIDEO, ?_, always_putcTraced hlive0 hlivehi a ha⟩
    rw [writtenScreens, if_pos ht]
    exact List.mem_singleton_self _
  have hsaved : ∀ u, ((putc t c p.1).backup u).OnGrid := by
    intro u
    apply (h.saved u).of_location
    show ((putc t c p.1).term u).cursor_location = _
    rw [putc_term_eq]
    rfl
  have hcond : TabHasRoom p (.print t c) ↔
      ¬ (c = 0x09 ∧ 42 ≤ p.1.current_location ∧ p.1.current_location < 152) := by
    show ¬ (t = p.2 ∧ _) ↔ _
    rw [and_iff_right ht]
  unfold StaysOnScreen
  rw [step_live ht, hcond, ← putc_onGrid_iff (t := t) h.live]
  constructor
  · intro hstays
    exact (hstays.1 _ rfl).live
  · intro hgrid
    refine ⟨fun q hq => ?_, hstores⟩
    rw [Option.some.injEq] at hq
    rw [← hq]
    exact ⟨hgrid, hsaved⟩

/-- Output by `putc_term`. -/
theorem stays_print_hidden {t : TermId} {c : UInt8} (hs : Placed p.1) (h : OnScreen p.1)
    (ht : t ≠ p.2) : StaysOnScreen p (.print t c) := by
  have hgrid := h.saved t
  have hhi : (p.1.term t).cursor_location < 4000 := lt_of_le_of_lt hgrid.le (by decide)
  have hdraws : DrawsOn t p.1 (putc_term c t p.1) :=
    putc_term_draws (hs.base_lt t) (Or.inr ⟨hgrid.nonneg, hhi⟩)
  refine ⟨fun q hq => ?_, fun a ha => ?_⟩
  · rw [step_hidden ht, Option.some.injEq] at hq
    rw [← hq]
    refine ⟨h.live.of_location hdraws.location, fun u => ?_⟩
    by_cases hu : u = t
    · rw [hu]
      exact putc_term_onGrid hgrid
    · exact (h.saved u).of_location (hdraws.cursor u hu)
  · rw [printStep_hidden ht, Traced.mem_events_bind_pure] at ha
    refine ⟨(p.1.term t).vid_backup, ?_, ?_⟩
    · rw [writtenScreens, if_neg ht]
      exact List.mem_singleton_self _
    · exact always_putcTermTraced (hs.base_lt t) hgrid.nonneg hhi a ha

/-- The two copies of a terminal switch. -/
theorem stays_switch (h : OnScreen p.1) (new : TermId) : StaysOnScreen p (.switch new) := by
  have hstores : Traced.Always
      (fun a => ∃ base ∈ writtenScreens p (.switch new), OnScreenAt base a)
      (printStep p (.switch new)) := by
    rw [printStep, Traced.always_bind, Traced.always_emits, writtenScreens]
    refine ⟨fun a ha => ⟨_, List.mem_cons_self, always_copyStores _ a ha⟩, fun _ _ => ?_⟩
    rw [Traced.always_bind, Traced.always_emits]
    refine ⟨fun a ha => ⟨VIDEO, ?_, always_copyStores _ a ha⟩, fun _ _ => ?_⟩
    · apply List.mem_cons_of_mem
      exact List.mem_singleton_self _
    · exact Traced.always_pure _
  refine ⟨fun q hq => ?_, hstores⟩
  rw [step_switch, Option.some.injEq] at hq
  rw [← hq]
  exact switch_onScreen h

/-- One event, where all cursors are on their screens. -/
theorem staysOnScreen_iff (hs : Placed p.1) (h : OnScreen p.1) :
    StaysOnScreen p e ↔ TabHasRoom p e := by
  cases e with
  | print t c =>
    by_cases ht : t = p.2
    · exact stays_print_live h ht
    · exact iff_of_true (stays_print_hidden hs h ht) fun hbad => ht hbad.1
  | switch new => exact iff_of_true (stays_switch h new) trivial

/-- No event moves a saved screen. -/
theorem printStep_placed (hs : Placed p.1) (h : OnScreen p.1)
    (hstep : printSystem.step p e = some q) : Placed q.1 := by
  cases e with
  | print t c =>
    by_cases ht : t = p.2
    · rw [step_live ht, Option.some.injEq] at hstep
      rw [← hstep]
      exact hs.of_same (sameScreens_of_term_eq (putc_term_eq t c p.1))
    · rw [step_hidden ht, Option.some.injEq] at hstep
      rw [← hstep]
      have hgrid := h.saved t
      exact (putc_term_draws (hs.base_lt t)
        (Or.inr ⟨hgrid.nonneg, lt_of_le_of_lt hgrid.le (by decide)⟩)).placed hs
  | switch new =>
    rw [step_switch, Option.some.injEq] at hstep
    rw [← hstep]
    exact hs.of_same (switch_terminal_screens _ _ _)

theorem ReachableWhere.onScreen (h : printSystem.ReachableWhere TabHasRoom p) :
    Placed p.1 ∧ OnScreen p.1 := by
  apply h.invariant (P := fun p => Placed p.1 ∧ OnScreen p.1)
  · rintro p ⟨hs, hlive, hsaved⟩
    exact ⟨hs, Screen.onGrid_of_zero hlive, fun t => Screen.onGrid_of_zero (hsaved t)⟩
  · intro p e q _ hp hok hstep
    exact ⟨printStep_placed hp.1 hp.2 hstep, ((staysOnScreen_iff hp.1 hp.2).mpr hok).1 q hstep⟩

/-- In every run in which no Tab is printed on the displayed screen in columns 21 to 75 of the
first row, all cursors are on their screens, and the next event leaves them there, and writes
only on the screens it is about, if and only if it is not such a Tab. -/
theorem cursor_on_screen_iff (h : printSystem.ReachableWhere TabHasRoom p) :
    OnScreen p.1 ∧ ∀ e, StaysOnScreen p e ↔ TabHasRoom p e := by
  obtain ⟨hs, hscreen⟩ := ReachableWhere.onScreen h
  exact ⟨hscreen, fun e => staysOnScreen_iff hs hscreen⟩

end

/-- The three terminals after `init_term`, the first one on display. -/
def clearedTerminals : Console × TermId := (init_term_console Console.blank, 0)

theorem clearedTerminals_init : printSystem.init clearedTerminals :=
  ⟨init_term_console_placed _, rfl, by decide⟩

/-- A letter on the hidden terminal 1, which is then displayed. -/
theorem cursor_on_screen_sample :
    OnScreen (switch_terminal 0 1 (putc_term 0x41 1 clearedTerminals.1)) ∧
      ∀ e, StaysOnScreen (switch_terminal 0 1 (putc_term 0x41 1 clearedTerminals.1), 1) e ↔
        TabHasRoom (switch_terminal 0 1 (putc_term 0x41 1 clearedTerminals.1), 1) e := by
  apply cursor_on_screen_iff
    (p := (switch_terminal 0 1 (putc_term 0x41 1 clearedTerminals.1), 1))
  have hprinted : printSystem.ReachableWhere TabHasRoom
      (putc_term 0x41 1 clearedTerminals.1, clearedTerminals.2) :=
    .step (.init clearedTerminals_init) (e := .print 1 0x41) (fun h => absurd h.1 (by decide))
      (step_hidden (by decide))
  exact .step hprinted (e := .switch 1) trivial (step_switch 1)

/-- Seven Tabs from the upper left corner. -/
theorem cursor_leaves_screen : ∃ p, printSystem.Reachable p ∧ ¬ OnScreen p.1 := by
  obtain ⟨p, hp, hneg⟩ := System.Reachable.exists_of_run (P := fun p => p.1.current_location < 0)
    clearedTerminals_init (List.replicate 7 (.print 0 0x09)) (by decide +kernel)
  exact ⟨p, hp, fun h => absurd h.live.nonneg (not_le.mpr hneg)⟩

end Kernel391
