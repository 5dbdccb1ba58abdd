import Kernel391.Fish.BlinkList
import Kernel391.Lib.Lines
import Kernel391.UserPrograms

/-!
# `add_frames` of `fish` (`fish.c`)

The aquarium has two pictures, each in a file. `add_frames` reads both files side by side,
letter by letter, and adds a blinking character for each place where one of the pictures has
something. Every run in which others do what `Spares` allows adds the same structures, row by row
(`add_frames_runs`), however long the lines of the two files are and whichever of them ends first.
-/

namespace Kernel391.Fish

open Lines Programs Stream TransitionSystem Words

/-! ## The program -/

def SPACE : UInt8 := 0x20

/-- The local variables of `add_frames`, and the program's data. -/
structure FrameVars where
  c0 : UInt8
  c1 : UInt8
  eof0 : Bool
  eof1 : Bool
  row : ℕ
  col : ℕ
  data : State

/-- `if (c0 != '\n')` with the `read` behind it, for either file. -/
def readChar (fd : ℤ) (c : UInt8) (eof : Bool) : UserProg (UInt8 × Bool) :=
  if c ≠ NEWLINE then do
    let num_bytes ← ece391_read fd 1
    if num_bytes.ret = 0 then return (NEWLINE, true)
    else return (num_bytes.stored.headD c, eof)
  else return (c, eof)

/-- A column, once both characters are there. -/
def addColumn (blink_struct : BlinkStruct) (x : FrameVars) : State :=
  if (x.c0 ≠ SPACE ∧ x.c0 ≠ NEWLINE) ∨ (x.c1 ≠ SPACE ∧ x.c1 ≠ NEWLINE) then
    let blink_struct := { blink_struct with
      on_char := if x.c0 = NEWLINE then SPACE else x.c0
      off_char := if x.c1 = NEWLINE then SPACE else x.c1
      location := UInt16.ofNat (x.row * 80 + x.col + 40) }
    (mp1_ioctl_add x.data blink_struct).1
  else x.data

/-- The inner loop. -/
def columnRound (fd0 fd1 : ℤ) (blink_struct : BlinkStruct) (x : FrameVars) :
    UserProg (FrameVars ⊕ FrameVars) := do
  let r0 ← readChar fd0 x.c0 x.eof0
  let r1 ← readChar fd1 x.c1 x.eof1
  let x := { x with c0 := r0.1, c1 := r1.1, eof0 := r0.2, eof1 := r1.2 }
  if x.c0 = NEWLINE ∧ x.c1 = NEWLINE then return .inr x
  else return .inl { x with data := addColumn blink_struct x, col := x.col + 1 }

/-- The character a file begins the next row with; a file that is at its end is closed, in every
row again. -/
def endRow (fd : ℤ) (eof : Bool) : UserProg UInt8 :=
  if eof then do
    let _ ← ece391_close fd
    return NEWLINE
  else return 0x30

/-- The outer loop. -/
def rowRound (fd0 fd1 : ℤ) (blink_struct : BlinkStruct) (x : FrameVars) :
    UserProg (FrameVars ⊕ State) :=
  if x.eof0 = false ∨ x.eof1 = false then do
    let x ← Prog.repeatUntil (columnRound fd0 fd1 blink_struct) { x with col := 0 }
    let c0 ← endRow fd0 x.eof0
    let c1 ← endRow fd1 x.eof1
    return .inl { x with c0 := c0, c1 := c1, row := x.row + 1 }
  else return .inr x.data

/-- `blink_struct` is the structure as it lies on the stack. When a file cannot be opened the
program ends: there is no result. -/
def add_frames (f0 f1 : Bytes) (blink_struct : BlinkStruct) (data : State) :
    UserProg (Option State) := do
  let blink_struct := { blink_struct with on_length := 15, off_length := 15 }
  let fd0 ← ece391_open f0
  if fd0.ret < 0 then return none
  else do
    let fd1 ← ece391_open f1
    if fd1.ret < 0 then return none
    else do
      let data ← Prog.repeatUntil (rowRound fd0.ret fd1.ret blink_struct)
        { c0 := 0x30, c1 := 0x30, eof0 := false, eof1 := false, row := 0, col := 0, data := data }
      return some data

/-! ## The pictures -/

/-- A picture by its lines; beyond them there is nothing to be seen. -/
def frameChar (lines : List (List UInt8)) (row col : ℕ) : UInt8 :=
  (lines.getD row []).getD col SPACE

section
variable (blink_struct : BlinkStruct) (lines0 lines1 : List (List UInt8))

/-- The structure for a place, if there is something to be seen. -/
def placeStruct (row col : ℕ) : Option BlinkStruct :=
  if frameChar lines0 row col = SPACE ∧ frameChar lines1 row col = SPACE then none
  else some { blink_struct with
    on_char := frameChar lines0 row col
    off_char := frameChar lines1 row col
    location := UInt16.ofNat (row * 80 + col + 40) }

/-- The first `n` columns of a row. -/
def rowStructs (row n : ℕ) : List BlinkStruct :=
  (List.range n).filterMap (placeStruct blink_struct lines0 lines1 row)

def width (row : ℕ) : ℕ := max (lines0.getD row []).length (lines1.getD row []).length

/-- The first `n` rows. -/
def frameStructs (n : ℕ) : List BlinkStruct :=
  (List.range n).flatMap fun row =>
    rowStructs blink_struct lines0 lines1 row (width lines0 lines1 row)

/-- The pictures of `add_frames`, with its lengths. -/
def allStructs : List BlinkStruct :=
  frameStructs { blink_struct with on_length := 15, off_length := 15 } lines0 lines1
    (max lines0.length lines1.length)

end

/-- One after the other is added. -/
def addAll (f : State) (l : List BlinkStruct) : State :=
  l.foldl (fun f b => (mp1_ioctl_add f b).1) f

/-! ## Reading a file by letters -/

/-- Where a file stands within a row: `rem` is left of the line, and `next` are the lines behind
it. -/
inductive InRow (file : List UInt8) (i : ℕ) :
    FileDesc → UInt8 → Bool → List UInt8 → List (List UInt8) → Prop
  | reading {pos : ℕ} {c : UInt8} {rem : List UInt8} {next : List (List UInt8)} :
      pos ≤ file.length → c ≠ NEWLINE → (file.drop pos).splitOn NEWLINE = rem :: next →
      InRow file i (fileDesc i pos) c false rem next
  | ended {pos : ℕ} {next : List (List UInt8)} :
      pos ≤ file.length → (file.drop pos).splitOn NEWLINE = next →
      InRow file i (fileDesc i pos) NEWLINE false [] next
  | closing {pos : ℕ} {used : Bool} :
      InRow file i { fileDesc i pos with flags := used } NEWLINE true [] []

/-- Where it stands between two rows, with `lines` to come. -/
inductive AtRow (file : List UInt8) (i : ℕ) :
    FileDesc → UInt8 → Bool → List (List UInt8) → Prop
  | more {pos : ℕ} {c : UInt8} {lines : List (List UInt8)} :
      pos ≤ file.length → c ≠ NEWLINE → (file.drop pos).splitOn NEWLINE = lines →
      AtRow file i (fileDesc i pos) c false lines
  | closing {pos : ℕ} : AtRow file i { fileDesc i pos with flags := false } NEWLINE true []

/-- The character for a column: the next letter of the line, or a newline. -/
inductive Column : List UInt8 → UInt8 → Prop
  | letter {b : UInt8} {rem : List UInt8} : b ≠ NEWLINE → Column (b :: rem) b
  | none : Column [] NEWLINE

section
variable {file rem : List UInt8} {i pos : ℕ} {desc : FileDesc} {c : UInt8} {eof : Bool}
  {lines next : List (List UInt8)}

theorem AtRow.inRow {row : ℕ} (h : AtRow file i desc c eof (lines.drop row)) :
    InRow file i desc c eof (lines.getD row []) (lines.drop (row + 1)) := by
  have hhead : lines.getD row [] = (lines.drop row).headD [] := by
    rw [List.getD_eq_getElem?_getD, ← List.head?_drop, List.headD_eq_head?_getD]
  rw [hhead, ← List.tail_drop]
  generalize lines.drop row = left at h
  cases h with
  | more hpos hc hlines =>
    obtain ⟨rem, next, hsplit⟩ :=
      List.exists_cons_of_ne_nil (List.splitOn_ne_nil NEWLINE (file.drop _))
    rw [hlines] at hsplit
    rw [hsplit] at hlines ⊢
    exact .reading hpos hc hlines
  | closing => exact .closing

theorem AtRow.eof_iff (h : AtRow file i desc c eof lines) : eof = true ↔ lines = [] := by
  cases h with
  | more _ _ hlines =>
    rw [← hlines]
    exact ⟨fun h => absurd h (by decide), fun h => absurd h (List.splitOn_ne_nil _ _)⟩
  | closing => exact ⟨fun _ => rfl, fun _ => rfl⟩

theorem AtRow.closed (h : AtRow file i desc c true lines) : desc.flags = false := by
  cases h with
  | closing => rfl

/-- A letter that is not a newline is the next of the line. -/
theorem column_letter_iff (h : Column rem c) : c = NEWLINE ↔ rem = [] := by
  cases h with
  | letter hb => exact ⟨fun h => absurd h hb, fun h => absurd h (List.cons_ne_nil _ _)⟩
  | none => exact ⟨fun _ => rfl, fun _ => rfl⟩

theorem piece_one_cons {b : UInt8} {t : List UInt8} (h : file.drop pos = b :: t) :
    piece file pos 1 = [b] ∧ pos < file.length ∧ file.drop (pos + 1) = t := by
  refine ⟨?_, ?_, ?_⟩
  · rw [piece, h, List.take_succ_cons, List.take_zero]
  · by_contra hle
    rw [List.drop_eq_nil_of_le (by omega)] at h
    cases h
  · rw [← List.drop_drop, h, List.drop_succ_cons, List.drop_zero]

theorem piece_one_nil (h : file.drop pos = []) : piece file pos 1 = [] := by
  rw [piece, h, List.take_nil]

end

section
variable {m : Machine} {p : Pid} {Alone : Prop} {v : View} {w : UserWorld} {α : Type}
  {Q : α → UserWorld → Prop} {fd : Fd} {i : ℕ} {desc : FileDesc} {c : UInt8} {eof : Bool}
  {rem : List UInt8} {lines next : List (List UInt8)}

theorem sees_update_same (h : Sees p Alone v w) (hdesc : v.fd_table fd = desc) :
    Sees p Alone { v with fd_table := Function.update v.fd_table fd desc } w := by
  rw [← hdesc, Function.update_eq_self]
  exact h

/-- The next character of a file, for a column. -/
theorem ensures_readChar {f : UInt8 × Bool → UserProg α} (hgood : GoodInode m.img i)
    (hi : i < m.img.num_inodes) (h : Sees p Alone v w) (hdesc : v.fd_table fd = desc)
    (hrow : InRow (m.img.file i) i desc c eof rem next)
    (hrest : ∀ w' desc' c' eof',
      Sees p Alone { v with fd_table := Function.update v.fd_table fd desc' } w' →
      InRow (m.img.file i) i desc' c' eof' rem.tail next → Column rem c' →
      Ensures (platform m p Alone) Q (f (c', eof')) w') :
    Ensures (platform m p Alone) Q ((readChar fd.val c eof).bind f) w := by
  have hsame := sees_update_same h hdesc
  have hlength := m.img.length_file i
  unfold readChar
  cases hrow with
  | ended hpos hnext =>
    rw [if_neg (not_not.mpr rfl)]
    exact hrest w _ _ _ hsame (.ended hpos hnext) .none
  | closing =>
    rw [if_neg (not_not.mpr rfl)]
    exact hrest w _ _ _ hsame .closing .none
  | reading hpos hc hlines =>
    rw [if_pos hc]
    refine Ensures.bind ?_
    refine ensures_read_file h hdesc hgood hi (by omega) (by decide) (by decide) fun w₁ hw₁ => ?_
    rw [Int.toNat_one] at hw₁ ⊢
    cases rem with
    | cons b rem =>
      obtain ⟨hb, t, hdrop, hsplit⟩ := splitOn_eq_cons_cons hlines
      obtain ⟨hpiece, hlt, hbehind⟩ := piece_one_cons hdrop
      rw [hpiece] at hw₁ ⊢
      refine .ret (hrest w₁ _ _ _ hw₁ (.reading hlt hb ?_) (.letter hb))
      rw [List.length_singleton, hbehind]
      exact hsplit
    | nil =>
      rcases splitOn_eq_nil_cons hlines with ⟨hdrop, rfl⟩ | ⟨t, hdrop, hsplit⟩
      · -- the end of the file
        rw [piece_one_nil hdrop] at hw₁ ⊢
        exact .ret (hrest w₁ _ _ _ hw₁ .closing .none)
      · obtain ⟨hpiece, hlt, hbehind⟩ := piece_one_cons hdrop
        rw [hpiece] at hw₁ ⊢
        refine .ret (hrest w₁ _ _ _ hw₁ (.ended hlt ?_) .none)
        rw [List.length_singleton, hbehind]
        exact hsplit

/-- The end of a row. -/
theorem ensures_endRow {f : UInt8 → UserProg α} (hfd : 2 ≤ fd.val) (h : Sees p Alone v w)
    (hdesc : v.fd_table fd = desc) (hrow : InRow (m.img.file i) i desc NEWLINE eof [] next)
    (hrest : ∀ w' desc' c',
      Sees p Alone { v with fd_table := Function.update v.fd_table fd desc' } w' →
      AtRow (m.img.file i) i desc' c' eof next → Ensures (platform m p Alone) Q (f c') w') :
    Ensures (platform m p Alone) Q ((endRow fd.val eof).bind f) w := by
  cases hrow with
  | reading _ hc _ => exact absurd rfl hc
  | ended hpos hnext => exact hrest w _ _ (sees_update_same h hdesc) (.more hpos (by decide) hnext)
  | @closing pos used =>
    show Ensures _ Q ((ece391_close fd.val).bind fun _ => f NEWLINE) w
    cases used with
    | true =>
      refine ensures_close h hfd ?_ ?_ fun w₁ hw₁ => hrest w₁ _ _ hw₁ ?_
      · rw [hdesc]
      · rw [hdesc]
        rfl
      · rw [hdesc]
        exact .closing
    | false =>
      refine ensures_close_fails h hfd ?_ fun w₁ hw₁ => ?_
      · rw [hdesc]
      · exact hrest w₁ _ _ (sees_update_same hw₁ hdesc) .closing

end

/-! ## A row -/

section
variable {f : State} {l l' : List BlinkStruct} {blink_struct : BlinkStruct}
  {lines lines0 lines1 : List (List UInt8)} {row col : ℕ} {c : UInt8}

theorem addAll_append : addAll f (l ++ l') = addAll (addAll f l) l' := by
  unfold addAll
  rw [List.foldl_append]

theorem rowStructs_succ (n : ℕ) : rowStructs blink_struct lines0 lines1 row (n + 1) =
    rowStructs blink_struct lines0 lines1 row n ++
      (placeStruct blink_struct lines0 lines1 row n).toList := by
  unfold rowStructs
  rw [List.range_succ, List.filterMap_append, List.filterMap_cons, List.filterMap_nil]
  cases placeStruct blink_struct lines0 lines1 row n <;> rfl

theorem frameStructs_succ (n : ℕ) : frameStructs blink_struct lines0 lines1 (n + 1) =
    frameStructs blink_struct lines0 lines1 n ++
      rowStructs blink_struct lines0 lines1 n (width lines0 lines1 n) := by
  unfold frameStructs
  rw [List.range_succ, List.flatMap_append, List.flatMap_singleton]

/-- The character of a column is the one of the picture. -/
theorem column_frameChar (h : Column ((lines.getD row []).drop col) c) :
    frameChar lines row col = if c = NEWLINE then SPACE else c := by
  unfold frameChar
  generalize hrem : (lines.getD row []).drop col = rem at h
  cases h with
  | letter hb =>
    rw [if_neg hb, List.getD_eq_getElem?_getD, ← List.head?_drop, hrem]
    rfl
  | none =>
    rw [if_pos rfl, List.getD_eq_getElem?_getD, ← List.head?_drop, hrem]
    rfl

theorem column_seen_iff (h : Column ((lines.getD row []).drop col) c) :
    (c ≠ SPACE ∧ c ≠ NEWLINE) ↔ frameChar lines row col ≠ SPACE := by
  rw [column_frameChar h]
  by_cases hc : c = NEWLINE
  · simp [hc]
  · simp [hc]

/-- What a column adds is what the pictures have there. -/
theorem addColumn_eq {x : FrameVars}
    (h0 : Column ((lines0.getD x.row []).drop x.col) x.c0)
    (h1 : Column ((lines1.getD x.row []).drop x.col) x.c1) :
    addColumn blink_struct x =
      addAll x.data (placeStruct blink_struct lines0 lines1 x.row x.col).toList := by
  have hseen := or_congr (column_seen_iff h0) (column_seen_iff h1)
  unfold addColumn placeStruct
  rw [← column_frameChar h0, ← column_frameChar h1]
  by_cases hnone : frameChar lines0 x.row x.col = SPACE ∧ frameChar lines1 x.row x.col = SPACE
  · rw [if_neg fun h => not_and_or.mpr (hseen.mp h) hnone, if_pos hnone]
    rfl
  · rw [if_pos (hseen.mpr (not_and_or.mp hnone)), if_neg hnone]
    rfl

end

/-- Two files are open, each under a descriptor of its own. -/
structure TwoFiles (m : Machine) (fd0 fd1 : Fd) (i0 i1 : ℕ) : Prop where
  ne : fd0 ≠ fd1
  fd0_ge : 2 ≤ fd0.val
  fd1_ge : 2 ≤ fd1.val
  good0 : GoodInode m.img i0
  good1 : GoodInode m.img i1
  inode0 : i0 < m.img.num_inodes
  inode1 : i1 < m.img.num_inodes

/-- The view with what the two descriptors are now. -/
def pair (v : View) (fd0 fd1 : Fd) (d0 d1 : FileDesc) : View :=
  { v with fd_table := Function.update (Function.update v.fd_table fd0 d0) fd1 d1 }

section
variable {v : View} {fd0 fd1 : Fd} {d0 d1 d : FileDesc}

theorem pair_first (h : fd0 ≠ fd1) : (pair v fd0 fd1 d0 d1).fd_table fd0 = d0 := by
  unfold pair
  dsimp only
  rw [Function.update_of_ne h, Function.update_self]

theorem pair_second : (pair v fd0 fd1 d0 d1).fd_table fd1 = d1 := Function.update_self ..

theorem pair_set_first (h : fd0 ≠ fd1) :
    { pair v fd0 fd1 d0 d1 with
      fd_table := Function.update (pair v fd0 fd1 d0 d1).fd_table fd0 d } =
      pair v fd0 fd1 d d1 := by
  unfold pair
  dsimp only
  rw [Function.update_comm h, Function.update_idem, Function.update_comm h]

theorem pair_set_second :
    { pair v fd0 fd1 d0 d1 with
      fd_table := Function.update (pair v fd0 fd1 d0 d1).fd_table fd1 d } =
      pair v fd0 fd1 d0 d := by
  unfold pair
  dsimp only
  rw [Function.update_idem]

end

section
variable {m : Machine} {p : Pid} {Alone : Prop} {v : View} {w : UserWorld} {fd0 fd1 : Fd}
  {i0 i1 : ℕ} {blink_struct : BlinkStruct} {lines0 lines1 : List (List UInt8)} {start : State}
  {x : FrameVars}

/-- Within a row: the columns up to `x.col` are done. -/
def ColumnAt (m : Machine) (p : Pid) (Alone : Prop) (v : View) (fd0 fd1 : Fd) (i0 i1 : ℕ)
    (blink_struct : BlinkStruct) (lines0 lines1 : List (List UInt8)) (start : State)
    (x : FrameVars) (w : UserWorld) : Prop :=
  ∃ d0 d1, Sees p Alone (pair v fd0 fd1 d0 d1) w ∧
    InRow (m.img.file i0) i0 d0 x.c0 x.eof0 ((lines0.getD x.row []).drop x.col)
      (lines0.drop (x.row + 1)) ∧
    InRow (m.img.file i1) i1 d1 x.c1 x.eof1 ((lines1.getD x.row []).drop x.col)
      (lines1.drop (x.row + 1)) ∧
    x.data = addAll start (rowStructs blink_struct lines0 lines1 x.row x.col)

/-- At its end. -/
def RowDone (m : Machine) (p : Pid) (Alone : Prop) (v : View) (fd0 fd1 : Fd) (i0 i1 : ℕ)
    (blink_struct : BlinkStruct) (lines0 lines1 : List (List UInt8)) (start : State) (row : ℕ)
    (x : FrameVars) (w : UserWorld) : Prop :=
  ∃ d0 d1, Sees p Alone (pair v fd0 fd1 d0 d1) w ∧
    InRow (m.img.file i0) i0 d0 NEWLINE x.eof0 [] (lines0.drop (row + 1)) ∧
    InRow (m.img.file i1) i1 d1 NEWLINE x.eof1 [] (lines1.drop (row + 1)) ∧
    x.row = row ∧
    x.data = addAll start (rowStructs blink_struct lines0 lines1 row (width lines0 lines1 row))

theorem columnRound_adds (hfiles : TwoFiles m fd0 fd1 i0 i1)
    (hcol : x.col ≤ width lines0 lines1 x.row)
    (h : ColumnAt m p Alone v fd0 fd1 i0 i1 blink_struct lines0 lines1 start x w) :
    Ensures (platform m p Alone) (fun o w' =>
      (∀ x', o = .inl x' → x'.row = x.row ∧ x'.col = x.col + 1 ∧
        x'.col ≤ width lines0 lines1 x.row ∧
        ColumnAt m p Alone v fd0 fd1 i0 i1 blink_struct lines0 lines1 start x' w') ∧
      ∀ x', o = .inr x' →
        RowDone m p Alone v fd0 fd1 i0 i1 blink_struct lines0 lines1 start x.row x' w')
      (columnRound fd0.val fd1.val blink_struct x) w := by
  obtain ⟨d0, d1, hsees, h0, h1, hdata⟩ := h
  refine ensures_readChar hfiles.good0 hfiles.inode0 hsees (pair_first hfiles.ne) h0 ?_
  intro w₁ d0' c0 eof0 hw₁ h0' hcol0
  rw [pair_set_first hfiles.ne] at hw₁
  refine ensures_readChar hfiles.good1 hfiles.inode1 hw₁ pair_second h1 ?_
  intro w₂ d1' c1 eof1 hw₂ h1' hcol1
  rw [pair_set_second] at hw₂
  have hwidth : width lines0 lines1 x.row =
    max (lines0.getD x.row []).length (lines1.getD x.row []).length := rfl
  dsimp only
  by_cases hend : c0 = NEWLINE ∧ c1 = NEWLINE
  · rw [if_pos hend]
    obtain ⟨rfl, rfl⟩ := hend
    have hnil0 := (column_letter_iff hcol0).mp rfl
    have hnil1 := (column_letter_iff hcol1).mp rfl
    have hlast : x.col = width lines0 lines1 x.row := by
      rw [List.drop_eq_nil_iff] at hnil0 hnil1
      omega
    rw [hnil0] at h0'
    rw [hnil1] at h1'
    refine .ret ⟨fun x' hx => ?_, fun x' hx => ?_⟩
    · cases hx
    · cases hx
      exact ⟨d0', d1', hw₂, h0', h1', rfl, hlast ▸ hdata⟩
  · rw [if_neg hend]
    have hmore : x.col < width lines0 lines1 x.row := by
      by_contra hge
      refine hend ⟨(column_letter_iff hcol0).mpr ?_, (column_letter_iff hcol1).mpr ?_⟩
      · exact List.drop_eq_nil_of_le (by omega)
      · exact List.drop_eq_nil_of_le (by omega)
    rw [List.tail_drop] at h0' h1'
    refine .ret ⟨fun x' hx => ?_, fun x' hx => ?_⟩
    · cases hx
      refine ⟨rfl, rfl, hmore, d0', d1', hw₂, h0', h1', ?_⟩
      dsimp only
      rw [addColumn_eq hcol0 hcol1, rowStructs_succ, addAll_append, ← hdata]
    · cases hx

/-- A whole row. -/
theorem columnLoop_adds (hfiles : TwoFiles m fd0 fd1 i0 i1) (hcol : x.col = 0)
    (hdata : x.data = start)
    (h : ∃ d0 d1, Sees p Alone (pair v fd0 fd1 d0 d1) w ∧
      AtRow (m.img.file i0) i0 d0 x.c0 x.eof0 (lines0.drop x.row) ∧
      AtRow (m.img.file i1) i1 d1 x.c1 x.eof1 (lines1.drop x.row)) :
    Ensures (platform m p Alone)
      (RowDone m p Alone v fd0 fd1 i0 i1 blink_struct lines0 lines1 start x.row)
      (Prog.repeatUntil (columnRound fd0.val fd1.val blink_struct) x) w := by
  refine Ensures.loop_of
    (fun y w => y.row = x.row ∧ y.col ≤ width lines0 lines1 y.row ∧
      ColumnAt m p Alone v fd0 fd1 i0 i1 blink_struct lines0 lines1 start y w)
    (fun y _ => width lines0 lines1 y.row - y.col) ?_ ⟨rfl, by omega, ?_⟩
  · rintro y w ⟨hrow, hle, hat⟩
    refine (columnRound_adds hfiles hle hat).mono fun o w' ho => ⟨fun z hz => ?_, fun z hz => ?_⟩
    · obtain ⟨hsame, hnext, hle', hat'⟩ := ho.1 z hz
      rw [hsame]
      exact ⟨⟨hrow, hle', hat'⟩, by omega⟩
    · have hdone := ho.2 z hz
      rw [hrow] at hdone
      exact .ret hdone
  · obtain ⟨d0, d1, hsees, h0, h1⟩ := h
    refine ⟨d0, d1, hsees, ?_, ?_, ?_⟩
    · rw [hcol, List.drop_zero]
      exact h0.inRow
    · rw [hcol, List.drop_zero]
      exact h1.inRow
    · rw [hcol, hdata]
      rfl

end

/-! ## All rows -/

section
variable {m : Machine} {p : Pid} {Alone : Prop} {v : View} {w : UserWorld} {fd0 fd1 : Fd}
  {i0 i1 : ℕ} {blink_struct : BlinkStruct} {lines0 lines1 : List (List UInt8)} {start : State}
  {x : FrameVars}

/-- The rows up to `x.row` are done. -/
def RowAt (m : Machine) (p : Pid) (Alone : Prop) (v : View) (fd0 fd1 : Fd) (i0 i1 : ℕ)
    (blink_struct : BlinkStruct) (lines0 lines1 : List (List UInt8)) (start : State)
    (x : FrameVars) (w : UserWorld) : Prop :=
  ∃ d0 d1, Sees p Alone (pair v fd0 fd1 d0 d1) w ∧
    AtRow (m.img.file i0) i0 d0 x.c0 x.eof0 (lines0.drop x.row) ∧
    AtRow (m.img.file i1) i1 d1 x.c1 x.eof1 (lines1.drop x.row) ∧
    x.data = addAll start (frameStructs blink_struct lines0 lines1 x.row)

/-- All are done, and both files are closed. -/
def RowsDone (p : Pid) (Alone : Prop) (v : View) (fd0 fd1 : Fd) (blink_struct : BlinkStruct)
    (lines0 lines1 : List (List UInt8)) (start data : State) (w : UserWorld) : Prop :=
  data = addAll start (frameStructs blink_struct lines0 lines1 (max lines0.length lines1.length)) ∧
    ∃ d0 d1, d0.flags = false ∧ d1.flags = false ∧ Sees p Alone (pair v fd0 fd1 d0 d1) w

theorem rowRound_adds (hfiles : TwoFiles m fd0 fd1 i0 i1)
    (hrow : x.row ≤ max lines0.length lines1.length)
    (h : RowAt m p Alone v fd0 fd1 i0 i1 blink_struct lines0 lines1 start x w) :
    Ensures (platform m p Alone) (fun o w' =>
      (∀ x', o = .inl x' → x'.row = x.row + 1 ∧ x'.row ≤ max lines0.length lines1.length ∧
        RowAt m p Alone v fd0 fd1 i0 i1 blink_struct lines0 lines1 start x' w') ∧
      ∀ data, o = .inr data →
        RowsDone p Alone v fd0 fd1 blink_struct lines0 lines1 start data w')
      (rowRound fd0.val fd1.val blink_struct x) w := by
  obtain ⟨d0, d1, hsees, h0, h1, hdata⟩ := h
  have hover0 := h0.eof_iff.trans List.drop_eq_nil_iff
  have hover1 := h1.eof_iff.trans List.drop_eq_nil_iff
  unfold rowRound
  by_cases hmore : x.eof0 = false ∨ x.eof1 = false
  · rw [if_pos hmore]
    have hlt : x.row < max lines0.length lines1.length := by
      by_contra hge
      have heof0 := hover0.mpr (by omega)
      have heof1 := hover1.mpr (by omega)
      simp [heof0, heof1] at hmore
    refine Ensures.bind ((columnLoop_adds (x := { x with col := 0 }) hfiles rfl rfl
      ⟨d0, d1, hsees, h0, h1⟩).mono ?_)
    rintro y w₁ ⟨d0', d1', hw₁, h0', h1', hsame, hadded⟩
    refine ensures_endRow hfiles.fd0_ge hw₁ (pair_first hfiles.ne) h0' ?_
    intro w₂ d0'' c0 hw₂ h0''
    rw [pair_set_first hfiles.ne] at hw₂
    refine ensures_endRow hfiles.fd1_ge hw₂ pair_second h1' ?_
    intro w₃ d1'' c1 hw₃ h1''
    rw [pair_set_second] at hw₃
    refine .ret ⟨fun x' hx => ?_, fun data hx => ?_⟩
    · cases hx
      dsimp only at hsame hadded h0'' h1'' ⊢
      rw [hsame]
      refine ⟨rfl, hlt, d0'', d1'', hw₃, h0'', h1'', ?_⟩
      rw [hadded, hdata, frameStructs_succ, addAll_append]
    · cases hx
  · rw [if_neg hmore]
    rw [not_or, Bool.not_eq_false, Bool.not_eq_false] at hmore
    have hlast : x.row = max lines0.length lines1.length := by
      have hle0 := hover0.mp hmore.1
      have hle1 := hover1.mp hmore.2
      omega
    rw [hmore.1] at h0
    rw [hmore.2] at h1
    refine .ret ⟨fun x' hx => ?_, fun data hx => ?_⟩
    · cases hx
    · cases hx
      exact ⟨hlast ▸ hdata, d0, d1, h0.closed, h1.closed, hsees⟩

/-- The loop over the rows. -/
theorem rowLoop_adds (lines0 lines1 : List (List UInt8)) (start : State)
    (hfiles : TwoFiles m fd0 fd1 i0 i1)
    (h : RowAt m p Alone v fd0 fd1 i0 i1 blink_struct lines0 lines1 start x w)
    (hrow : x.row = 0) :
    Ensures (platform m p Alone) (RowsDone p Alone v fd0 fd1 blink_struct lines0 lines1 start)
      (Prog.repeatUntil (rowRound fd0.val fd1.val blink_struct) x) w := by
  refine Ensures.loop_of
    (fun y w => y.row ≤ max lines0.length lines1.length ∧
      RowAt m p Alone v fd0 fd1 i0 i1 blink_struct lines0 lines1 start y w)
    (fun y _ => max lines0.length lines1.length - y.row) ?_ ⟨by omega, h⟩
  rintro y w ⟨hle, hat⟩
  refine (rowRound_adds hfiles hle hat).mono fun o w' ho => ⟨fun z hz => ?_, fun data hdata => ?_⟩
  · obtain ⟨hnext, hle', hat'⟩ := ho.1 z hz
    exact ⟨⟨hle', hat'⟩, by omega⟩
  · exact .ret (ho.2 data hdata)

end

/-! ## Every run -/

/-- There is no such name in the directory. -/
def Missing (img : Image) (name : List UInt8) : Prop :=
  ∀ i < img.num_dir_entries, img.name i ≠ name

/-- Entry `i` is the regular file of that name. -/
structure IsFile (img : Image) (name : List UInt8) (i : ℕ) : Prop where
  lt : i < img.num_dir_entries
  name_eq : img.name i = name
  type_eq : img.file_type i = 2

/-- The lines of its file. -/
def picture (img : Image) (i : ℕ) : List (List UInt8) :=
  (img.file (img.inode i)).splitOn NEWLINE

/-- Two descriptors are free. -/
def TwoFree (table : Fd → FileDesc) : Prop :=
  ∃ fd fd' : Fd, fd ≠ fd' ∧ (2 ≤ fd.val ∧ (table fd).flags = false) ∧
    2 ≤ fd'.val ∧ (table fd').flags = false

section
variable {m : Machine} {p : Pid} {v : View} {w : UserWorld} {f0 f1 : Bytes} {i0 i1 : ℕ}
  {blink_struct : BlinkStruct} {data : State}

/-- One of them is left when the first has been taken. -/
theorem second_free {table : Fd → FileDesc} {fd : Fd} {desc : FileDesc} (h : TwoFree table)
    (hdesc : desc.flags = true) :
    ∃ fd', fd ≠ fd' ∧ FirstFree (Function.update table fd desc) fd' := by
  obtain ⟨a, b, hab, ⟨ha, hfreea⟩, hb, hfreeb⟩ := h
  have hleft : ¬ AllUsed (Function.update table fd desc) := by
    intro hused
    by_cases hafd : a = fd
    · have hflag := hused b hb
      rw [Function.update_of_ne fun hbfd => hab (hafd.trans hbfd.symm), hfreeb] at hflag
      cases hflag
    · have hflag := hused a ha
      rw [Function.update_of_ne hafd, hfreea] at hflag
      cases hflag
  obtain ⟨fd', hfd'⟩ := firstFree_of_not_allUsed hleft
  refine ⟨fd', fun heq => ?_, hfd'⟩
  have hflag := hfd'.2.1
  rw [← heq, Function.update_self, hdesc] at hflag
  cases hflag

theorem all_used {table : Fd → FileDesc} {fd : Fd} {desc : FileDesc} (hfirst : FirstFree table fd)
    (hdesc : desc.flags = true) (h : ¬ TwoFree table) :
    AllUsed (Function.update table fd desc) := by
  intro j hj
  by_cases hjfd : j = fd
  · rw [hjfd, Function.update_self]
    exact hdesc
  · rw [Function.update_of_ne hjfd, ← Bool.not_eq_false]
    intro hfree
    exact h ⟨fd, j, Ne.symm hjfd, ⟨hfirst.1, hfirst.2.1⟩, hj, hfree⟩

/-- The first file cannot be opened. -/
theorem add_frames_no_first (hsees : Sees p False v w) (hname : ¬ ConsoleName f0)
    (hnone : (∀ fs, read_dentry_by_name m.img f0 fs = none) ∨ AllUsed v.fd_table) :
    Ensures (platform m p False) (fun r _ => r = none) (add_frames f0 f1 blink_struct data) w := by
  refine ensures_open_fails hsees hname hnone fun w₁ _ => ?_
  rw [if_pos (show (-1 : ℤ) < 0 by decide)]
  exact .ret rfl

/-- The second one cannot be opened. -/
theorem add_frames_no_second (hnamed : NamedImage m.img) (hsees : Sees p False v w) {fd : Fd}
    (hfile : IsFile m.img (text f0) i0) (hholds : HoldsBytes f0 (text f0))
    (hres : NotReserved (text f0)) (hfirst : FirstFree v.fd_table fd) (hname : ¬ ConsoleName f1)
    (hnone : (∀ fs, read_dentry_by_name m.img f1 fs = none) ∨ ¬ TwoFree v.fd_table) :
    Ensures (platform m p False) (fun r _ => r = none) (add_frames f0 f1 blink_struct data) w := by
  rw [← hfile.name_eq] at hholds hres
  refine ensures_open_regular hnamed hsees hfile.lt hfile.type_eq hholds hres hfirst
    fun w₁ hw₁ => ?_
  dsimp only
  rw [if_neg (by omega)]
  refine ensures_open_fails hw₁ hname ?_ fun w₂ _ => ?_
  · exact hnone.imp (fun hmissing => hmissing) fun hfew => all_used hfirst rfl hfew
  · rw [if_pos (show (-1 : ℤ) < 0 by decide)]
    exact .ret rfl

/-- Both can. -/
theorem add_frames_adds (hnamed : NamedImage m.img) (himg : GoodImage m.img)
    (hsees : Sees p False v w) (hfile0 : IsFile m.img (text f0) i0)
    (hfile1 : IsFile m.img (text f1) i1) (hholds0 : HoldsBytes f0 (text f0))
    (hholds1 : HoldsBytes f1 (text f1)) (hres0 : NotReserved (text f0))
    (hres1 : NotReserved (text f1)) (hfree : TwoFree v.fd_table) :
    Ensures (platform m p False) (fun r w' =>
        r = some (addAll data (allStructs blink_struct (picture m.img i0) (picture m.img i1))) ∧
        w'.printed = v.printed ∧ SameFlags p v.fd_table w')
      (add_frames f0 f1 blink_struct data) w := by
  have hinode0 := himg.entries i0 hfile0.lt hfile0.type_eq
  have hinode1 := himg.entries i1 hfile1.lt hfile1.type_eq
  rw [← hfile0.name_eq] at hholds0 hres0
  rw [← hfile1.name_eq] at hholds1 hres1
  obtain ⟨fd0, hfirst0⟩ : ∃ fd, FirstFree v.fd_table fd := by
    obtain ⟨a, -, -, ha, -⟩ := hfree
    exact exists_firstFree ⟨a, ha⟩
  obtain ⟨fd1, hne, hfirst1⟩ : ∃ fd1, fd0 ≠ fd1 ∧
    FirstFree (Function.update v.fd_table fd0 (fileDesc (m.img.inode i0) 0)) fd1 :=
      second_free hfree rfl
  have hfiles : TwoFiles m fd0 fd1 (m.img.inode i0) (m.img.inode i1) :=
    ⟨hne, hfirst0.1, hfirst1.1, himg.inodes _ hinode0, himg.inodes _ hinode1, hinode0, hinode1⟩
  refine ensures_open_regular hnamed hsees hfile0.lt hfile0.type_eq hholds0 hres0 hfirst0
    fun w₁ hw₁ => ?_
  dsimp only
  rw [if_neg (by omega)]
  refine ensures_open_regular hnamed hw₁ hfile1.lt hfile1.type_eq hholds1 hres1 hfirst1
    fun w₂ hw₂ => ?_
  dsimp only
  rw [if_neg (by omega)]
  refine Ensures.bind ((rowLoop_adds (picture m.img i0) (picture m.img i1) data hfiles
    ⟨_, _, hw₂, ?_, ?_, rfl⟩ rfl).mono ?_)
  · exact .more (Nat.zero_le _) (show (0x30 : UInt8) ≠ NEWLINE by decide) rfl
  · exact .more (Nat.zero_le _) (show (0x30 : UInt8) ≠ NEWLINE by decide) rfl
  · rintro _ w₃ ⟨rfl, d0, d1, hd0, hd1, hw₃⟩
    refine .ret ⟨rfl, hw₃.printed, fun fd => ?_⟩
    rw [hw₃.fd_table]
    unfold pair
    dsimp only
    by_cases hsecond : fd = fd1
    · have hflag := hfirst1.2.1
      rw [Function.update_of_ne hne.symm] at hflag
      rw [hsecond, Function.update_self, hd1, hflag]
    · rw [Function.update_of_ne hsecond]
      by_cases hfirst : fd = fd0
      · rw [hfirst, Function.update_self, hd0, hfirst0.2.1]
      · rw [Function.update_of_ne hfirst]

end

/-- Every run of `add_frames` that nothing disturbs, on two regular files, adds, row by row and
column by column, one structure for each place where a picture has something, whichever file has
the longer rows or more of them, and closes both. If a file cannot be opened the program ends. -/
theorem add_frames_runs {m : Machine} (hnamed : NamedImage m.img) (himg : GoodImage m.img)
    {k : Kernel} (h : ReachableWhere m (KeepsStacks m) k) (f0 f1 : Bytes)
    (blink_struct : BlinkStruct) (data : State) (h0 : Terminated f0) (h1 : Terminated f1)
    (hres0 : NotReserved (text f0)) (hres1 : NotReserved (text f1)) :
    (Missing m.img (text f0) →
      EveryRun (platform m k.cur_pid False) (fun r _ => r = none)
        (add_frames f0 f1 blink_struct data) { kernel := k, printed := [] }) ∧
    ∀ i0, IsFile m.img (text f0) i0 →
      (Missing m.img (text f1) ∨ ¬ TwoFree (k.pcb k.cur_pid).fd_table →
        EveryRun (platform m k.cur_pid False) (fun r _ => r = none)
          (add_frames f0 f1 blink_struct data) { kernel := k, printed := [] }) ∧
      ∀ i1, IsFile m.img (text f1) i1 → TwoFree (k.pcb k.cur_pid).fd_table →
        EveryRun (platform m k.cur_pid False) (fun r w =>
            r = some
              (addAll data (allStructs blink_struct (picture m.img i0) (picture m.img i1))) ∧
            w.printed = [] ∧ SameFlags k.cur_pid (k.pcb k.cur_pid).fd_table w)
          (add_frames f0 f1 blink_struct data) { kernel := k, printed := [] } := by
  obtain ⟨hsees, -⟩ : Sees k.cur_pid False (firstView k) { kernel := k, printed := [] } ∧
    ToScreen (firstView k).fd_table := sees_first h
  have hname0 := not_consoleName h0.holds hres0.1 hres0.2
  have hname1 := not_consoleName h1.holds hres1.1 hres1.2
  refine ⟨fun hmissing => ?_, fun i0 hfile0 => ⟨fun hnone => ?_, fun i1 hfile1 hfree => ?_⟩⟩
  · exact (add_frames_no_first hsees hname0 (.inl fun fs => lookup_none fs hmissing)).everyRun
  · by_cases hused : AllUsed (k.pcb k.cur_pid).fd_table
    · exact (add_frames_no_first hsees hname0 (.inr hused)).everyRun
    · obtain ⟨fd, hfirst⟩ := firstFree_of_not_allUsed hused
      refine (add_frames_no_second hnamed hsees hfile0 h0.holds hres0 hfirst hname1 ?_).everyRun
      exact hnone.imp (fun hmissing fs => lookup_none fs hmissing) fun hfew => hfew
  · exact (add_frames_adds hnamed himg hsees hfile0 hfile1 h0.holds h1.holds hres0 hres1
      hfree).everyRun

/-- An image with these bytes. -/
def bytesAt (start : ℕ) (bytes : List UInt8) (rest : Image) : Image := fun a =>
  if a < start then rest a else bytes.getD (a - start) (rest a)

/-- The name of a picture. -/
def frameName (digit : UInt8) : List UInt8 :=
  [0x66, 0x72, 0x61, 0x6d, 0x65, digit, 0x2e, 0x74, 0x78, 0x74]

/-- The shell, and two small pictures. -/
def pictureImage : Image := fun a =>
  if a < 4096 then
    (bytesAt 192 (frameName 0x31) <| bytesAt 224 [2, 0, 0, 0, 2] <|
      bytesAt 128 (frameName 0x30) <| bytesAt 160 [2, 0, 0, 0, 1] <|
      bytesAt 64 [0x73, 0x68, 0x65, 0x6c, 0x6c] <| bytesAt 96 [2] <|
      bytesAt 0 [3, 0, 0, 0, 3, 0, 0, 0, 3] fun _ => 0) a
  else if a < 16384 then
    (bytesAt 12288 [1, 0, 0, 0, 2] <| bytesAt 8192 [4, 0, 0, 0, 1] <|
      bytesAt 4096 [28] fun _ => 0) a
  else
    (bytesAt 24576 [0x2f] <| bytesAt 20480 [0x6f, 0x0a, 0x20, 0x6f] <|
      bytesAt 16409 [0x80, 0x04, 0x08] <| bytesAt 16384 elfMagic fun _ => 0) a

def pictureMachine : Machine :=
  imageMachine pictureImage (holdsExecutable_shell (i := 0) (by decide +kernel) (by decide +kernel)
    (by decide +kernel) (by decide +kernel))

theorem pictureImage_good : GoodImage pictureImage := by
  constructor
  · intro inode hinode
    have hthree : pictureImage.num_inodes = 3 := by decide +kernel
    obtain rfl | rfl | rfl : inode = 0 ∨ inode = 1 ∨ inode = 2 := by omega
    · exact ⟨by decide +kernel, by decide +kernel⟩
    · exact ⟨by decide +kernel, by decide +kernel⟩
    · exact ⟨by decide +kernel, by decide +kernel⟩
  · decide +kernel

/-- `add_frames` in the place of the first shell. -/
theorem add_frames_runs_pictures : ∃ k,
    ReachableWhere pictureMachine (KeepsStacks pictureMachine) k ∧
    EveryRun (platform pictureMachine k.cur_pid False) (fun r w =>
        r = some (addAll emptyTank
          (allStructs .zero [[0x6f], [SPACE, 0x6f]] [[0x2f]])) ∧
        w.printed = [] ∧ SameFlags k.cur_pid (k.pcb k.cur_pid).fd_table w)
      (add_frames (message "frame0.txt".toList) (message "frame1.txt".toList) .zero emptyTank)
      { kernel := k, printed := [] } := by
  have hrun : (execute_func pictureMachine .kernel pictureMachine.shell sampleFrame
      (boot pictureMachine sampleMemory)).any (fun r => decide (r.2 = .enterUser LOAD_START) &&
        (!((r.1.pcb r.1.cur_pid).fd_table 2).flags &&
          !((r.1.pcb r.1.cur_pid).fd_table 3).flags)) = true := by decide +kernel
  rw [Option.any_eq_true] at hrun
  obtain ⟨⟨k, out⟩, hex, hcheck⟩ := hrun
  rw [Bool.and_eq_true, Bool.and_eq_true, decide_eq_true_eq, Bool.not_eq_true',
    Bool.not_eq_true'] at hcheck
  obtain ⟨hout, hfree, hfree'⟩ := hcheck
  have hreach : ReachableWhere pictureMachine (KeepsStacks pictureMachine) k :=
    System.ReachableWhere.init ⟨sampleMemory, trivial, sampleFrame, LOAD_START, hout ▸ hex⟩
  have hnamed : NamedImage pictureMachine.img :=
    ⟨by decide +kernel, by decide +kernel, by decide +kernel⟩
  have htwo : TwoFree (k.pcb k.cur_pid).fd_table :=
    ⟨2, 3, by decide, ⟨by decide, hfree⟩, by decide, hfree'⟩
  have hname0 : text (message "frame0.txt".toList) = messageBytes "frame0.txt".toList :=
    text_message (by decide) (by decide)
  have hname1 : text (message "frame1.txt".toList) = messageBytes "frame1.txt".toList :=
    text_message (by decide) (by decide)
  have hfile0 : IsFile pictureMachine.img (messageBytes "frame0.txt".toList) 1 :=
    ⟨by decide +kernel, by decide +kernel, by decide +kernel⟩
  have hfile1 : IsFile pictureMachine.img (messageBytes "frame1.txt".toList) 2 :=
    ⟨by decide +kernel, by decide +kernel, by decide +kernel⟩
  have hlines0 : picture pictureMachine.img 1 = [[0x6f], [SPACE, 0x6f]] := by decide +kernel
  have hlines1 : picture pictureMachine.img 2 = [[0x2f]] := by decide +kernel
  refine ⟨k, hreach, ?_⟩
  rw [← hlines0, ← hlines1]
  rw [← hname0] at hfile0
  rw [← hname1] at hfile1
  refine ((add_frames_runs hnamed pictureImage_good hreach _ _ .zero emptyTank ⟨10, by decide,
    by decide⟩ ⟨10, by decide, by decide⟩ ?_ ?_).2 1 hfile0).2 2 hfile1 htwo
  · rw [hname0]
    decide +kernel
  · rw [hname1]
    decide +kernel

end Kernel391.Fish
