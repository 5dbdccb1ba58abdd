import Kernel391.Strings
import Mathlib.Logic.Function.Basic
import Mathlib.Data.Fin.Basic

/-!
# Screen and keyboard (`lib.c`, `keyboard.c`, and the saving half of `terminal.c`)

Everything a terminal shows and everything typed on it: video memory with the three
backup screens behind it, the live line buffer and the three saved ones. None of these
routines reads or writes the process tables, so they are functions on the `Console`
alone, given the number of the displayed terminal where the source reads `curr_term`.

Loops over the whole screen are written as the memory they leave. Addresses are integers
and a store goes wherever its address says, also outside the screen; only the search of
`handle_backspace`, which would otherwise not end, stops with a fault when it leaves the
mapped pages. The VGA cursor ports are write-only and left out.
-/

namespace Kernel391

abbrev NUM_TERM : ℕ := 3

instance : NeZero NUM_TERM := ⟨by decide⟩

/-- Terminal numbers. -/
abbrev TermId := Fin NUM_TERM

def KEYBOARD_BUFFER_SIZE : ℕ := 128
def VIDEO : ℕ := 0xB8000
def VIDEOA : ℕ := 0xB9000
def VIDEOB : ℕ := 0xBA000
def VIDEOC : ℕ := 0xBB000
def NUM_COLS : ℕ := 80
def NUM_ROWS : ℕ := 25
def SCREEN_SIZE : ℕ := 2 * NUM_ROWS * NUM_COLS
def BLACK : UInt8 := 0x07

/-- An entry of a line buffer. `typed` is a history variable: the terminal on display when
the key was pressed, `none` for the NULs the kernel fills in. -/
structure KeyCell where
  c : UInt8
  typed : Option TermId
deriving DecidableEq

def NULL_KEY : KeyCell := { c := 0, typed := none }

/-- The console fields of `term_info`. -/
structure TermConsole where
  cursor_x : UInt32
  cursor_y : UInt32
  cursor_location : ℤ
  vid_backup : ℕ
  len_key_buf : ℕ
  has_enter : Bool
  term_key_buf : ℕ → KeyCell

structure Console where
  /-- Video memory and what lies around it, by physical address. -/
  vmem : ℤ → UInt8
  screen_x : ℤ
  screen_y : ℤ
  current_location : ℤ
  keyboard_buffer : ℕ → KeyCell
  length_key : ℕ
  key_mode : ℕ
  cap_on : Bool
  ctrl_pressed : Bool
  alt_pressed : Bool
  term : TermId → TermConsole

namespace Console

def modTerm (s : Console) (t : TermId) (f : TermConsole → TermConsole) : Console :=
  { s with term := Function.update s.term t (f (s.term t)) }

@[simp] theorem modTerm_length_key (s : Console) (t : TermId) (f : TermConsole → TermConsole) :
    (s.modTerm t f).length_key = s.length_key := rfl

def store (s : Console) (a : ℤ) (b : UInt8) : Console :=
  { s with vmem := Function.update s.vmem a b }

/-- Memory that is all zero. -/
def blank : Console where
  vmem _ := 0
  screen_x := 0
  screen_y := 0
  current_location := 0
  keyboard_buffer _ := NULL_KEY
  length_key := 0
  key_mode := 0
  cap_on := false
  ctrl_pressed := false
  alt_pressed := false
  term _ :=
    { cursor_x := 0, cursor_y := 0, cursor_location := 0, vid_backup := 0, len_key_buf := 0
      has_enter := false, term_key_buf := fun _ => NULL_KEY }

end Console

/-! ## Output -/

/-- `ATTRIB_TERM1`, `ATTRIB_TERM2`, `ATTRIB_TERM3`. -/
def attrib (t : TermId) : UInt8 := if t = 0 then 0xf else if t = 1 then 0x3 else 0x2

/-- Blank the 4000 bytes of a screen with the attribute of terminal `t`. -/
def clearScreen (base : ℤ) (t : TermId) (vmem : ℤ → UInt8) : ℤ → UInt8 := fun a =>
  if base ≤ a ∧ a < base + SCREEN_SIZE then (if (a - base) % 2 = 0 then 0x20 else attrib t)
  else vmem a

/-- Move the characters of a screen one row up and blank the last row with NULs. The
attribute bytes stay. -/
def scrollScreen (base : ℤ) (vmem : ℤ → UInt8) : ℤ → UInt8 := fun a =>
  let o := a - base
  if 0 ≤ o ∧ o < SCREEN_SIZE ∧ o % 2 = 0 then
    (if o < 2 * (NUM_ROWS - 1) * NUM_COLS then vmem (a + 2 * NUM_COLS) else 0)
  else vmem a

/-- Copy a screen. -/
def copyScreen (dest src : ℤ) (vmem : ℤ → UInt8) : ℤ → UInt8 := fun a =>
  if dest ≤ a ∧ a < dest + SCREEN_SIZE then vmem (src + (a - dest)) else vmem a

def clear (curr_term : TermId) (s : Console) : Console :=
  { s with
    vmem := clearScreen VIDEO curr_term s.vmem
    screen_x := 0, screen_y := 0, current_location := 0 }

def clear_backup (t : TermId) (s : Console) : Console :=
  { s with
    vmem := clearScreen (s.term t).vid_backup t s.vmem
    screen_x := 0, screen_y := 0, current_location := 0 }

def scroll (s : Console) : Console := { s with vmem := scrollScreen VIDEO s.vmem }

def scroll_term (t : TermId) (s : Console) : Console :=
  { s with vmem := scrollScreen (s.term t).vid_backup s.vmem }

def putc (curr_term : TermId) (c : UInt8) (s : Console) : Console :=
  let s := { s with
    screen_x := (s.current_location.tmod (NUM_COLS * 2)).tdiv 2
    screen_y := s.current_location.tdiv (NUM_COLS * 2) }
  -- the last cell of the screen is never written
  let s :=
    if s.screen_x = (NUM_COLS : ℤ) - 1 ∧ s.screen_y = (NUM_ROWS : ℤ) - 1 then
      { scroll s with screen_y := s.screen_y - 1 }
    else s
  let s :=
    if c = 0x0a ∨ c = 0x0d then
      let s :=
        if s.screen_y = (NUM_ROWS : ℤ) - 1 then { scroll s with screen_y := s.screen_y - 1 }
        else s
      { s with screen_y := s.screen_y + 1, screen_x := 0 }
    else if c = 0x09 then
      -- the column is compared with the number of rows here
      let s :=
        if s.screen_x ≥ (NUM_ROWS : ℤ) - 4 then { scroll s with screen_y := s.screen_y - 1 }
        else s
      let x := s.screen_x + 4
      { s with screen_y := (s.screen_y + x.tdiv NUM_COLS).tmod NUM_ROWS
               screen_x := x.tmod NUM_COLS }
    else
      -- a plain character, stored at the cursor
      let a := VIDEO + 2 * (NUM_COLS * s.screen_y + s.screen_x)
      let s := (s.store a c).store (a + 1) (attrib curr_term)
      let x := s.screen_x + 1
      { s with screen_y := (s.screen_y + x.tdiv NUM_COLS).tmod NUM_ROWS
               screen_x := x.tmod NUM_COLS }
  { s with current_location := 2 * (s.screen_x + s.screen_y * NUM_COLS) }

/-- `putc` for a terminal that is not displayed. The cursor columns are unsigned here. -/
def putc_term (c : UInt8) (t : TermId) (s : Console) : Console :=
  let s := s.modTerm t fun i => { i with
    cursor_x := UInt32.ofInt ((i.cursor_location.tmod (NUM_COLS * 2)).tdiv 2)
    cursor_y := UInt32.ofInt (i.cursor_location.tdiv (NUM_COLS * 2)) }
  let s :=
    if (s.term t).cursor_x = 79 ∧ (s.term t).cursor_y = 24 then
      (scroll_term t s).modTerm t fun i => { i with cursor_y := i.cursor_y - 1 }
    else s
  let s :=
    if c = 0x0a ∨ c = 0x0d then
      let s :=
        if (s.term t).cursor_y = 24 then
          (scroll_term t s).modTerm t fun i => { i with cursor_y := i.cursor_y - 1 }
        else s
      s.modTerm t fun i => { i with cursor_y := i.cursor_y + 1, cursor_x := 0 }
    else if c = 0x09 then
      let s :=
        -- as in `putc`, the column is compared with the number of rows
        if (s.term t).cursor_x ≥ 21 then
          (scroll_term t s).modTerm t fun i => { i with cursor_y := i.cursor_y - 1 }
        else s
      s.modTerm t fun i => { i with
        cursor_y := (i.cursor_y + (i.cursor_x + 4) / 80) % 25
        cursor_x := (i.cursor_x + 4) % 80 }
    else
      let i := s.term t
      -- pointer arithmetic, which wraps for a cursor that has left the screen
      let a := (i.vid_backup + (2 * (80 * i.cursor_y + i.cursor_x)).toNat) % addressSpace
      let s := (s.store a c).store (a + 1) (attrib t)
      s.modTerm t fun i => { i with
        cursor_y := (i.cursor_y + (i.cursor_x + 1) / 80) % 25
        cursor_x := (i.cursor_x + 1) % 80 }
  s.modTerm t fun i => { i with
    cursor_location := (2 * (i.cursor_x + i.cursor_y * 80)).toInt32.toInt }

/-- Print the characters of a string. -/
def puts (curr_term : TermId) (str : List Char) (s : Console) : Console :=
  str.foldl (fun s c => putc curr_term c.toUInt8 s) s

/-! ## Line buffers -/

/-- `memcpy` of a whole line buffer: 128 entries, and not what follows them. -/
def copyBuffer (dest src : ℕ → KeyCell) : ℕ → KeyCell := fun i =>
  if i < KEYBOARD_BUFFER_SIZE then src i else dest i

/-- The loops `for (i = 0; i <= length; i++) buffer[i] = NULL_KEY;`. -/
def clearBuffer (length : ℕ) (buffer : ℕ → KeyCell) : ℕ → KeyCell := fun i =>
  if i ≤ length then NULL_KEY else buffer i

def clear_keyboard_buffer (s : Console) : Console :=
  { s with keyboard_buffer := clearBuffer s.length_key s.keyboard_buffer, length_key := 0 }

def clear_keyboard_backup (t : TermId) (s : Console) : Console :=
  s.modTerm t fun i => { i with
    term_key_buf := clearBuffer i.len_key_buf i.term_key_buf, len_key_buf := 0 }

/-! ## Terminal switch -/

def save_term_info (old_term : TermId) (s : Console) : Console :=
  let s := s.modTerm old_term fun i => { i with
    cursor_x := UInt32.ofInt s.screen_x
    cursor_y := UInt32.ofInt s.screen_y
    cursor_location := s.current_location
    len_key_buf := s.length_key }
  let s := clear_keyboard_backup old_term s
  -- `sti` inside `clear_keyboard_backup` lets keys in from here on
  let s := { s with vmem := copyScreen (s.term old_term).vid_backup VIDEO s.vmem }
  let s := s.modTerm old_term fun i => { i with
    term_key_buf := copyBuffer i.term_key_buf s.keyboard_buffer, len_key_buf := s.length_key }
  clear_keyboard_buffer s

def restore_term_info (new_term : TermId) (s : Console) : Console :=
  let i := s.term new_term
  { s with
    screen_x := i.cursor_x.toInt32.toInt
    screen_y := i.cursor_y.toInt32.toInt
    current_location := i.cursor_location
    vmem := copyScreen VIDEO i.vid_backup s.vmem
    keyboard_buffer := copyBuffer s.keyboard_buffer i.term_key_buf
    length_key := i.len_key_buf }

def switch_terminal (old_term new_term : TermId) (s : Console) : Console :=
  restore_term_info new_term (save_term_info old_term s)

/-- What `init_term` does to the console before it starts the first shell. -/
def init_term_console (s : Console) : Console :=
  let backup (t : TermId) : ℕ := if t = 0 then VIDEOA else if t = 1 then VIDEOB else VIDEOC
  let s := { s with term := fun t => { s.term t with vid_backup := backup t } }
  let initTerm (s : Console) (t : TermId) : Console :=
    let s := s.modTerm t fun i => { i with cursor_location := 0, cursor_x := 0, cursor_y := 0 }
    let s := clear_backup t s
    let s := s.modTerm t fun i => { i with len_key_buf := 0 }
    let s := clear_keyboard_backup t s
    s.modTerm t fun i => { i with has_enter := false }
  restore_term_info 0 ((List.finRange NUM_TERM).foldl initTerm s)

/-! ## Keys -/

def KEY_COUNT : ℕ := 80
def BACKSPACE : ℕ := 0x0E
def TAB : ℕ := 0x0F
def CAP : ℕ := 0x3A
def ENTER : ℕ := 0x1C
def LSHIFT_DOWN : ℕ := 0x2A
def RSHIFT_DOWN : ℕ := 0x36
def LSHIFT_UP : ℕ := 0xAA
def RSHIFT_UP : ℕ := 0xB6
def CTRL_DOWN : ℕ := 0x1D
def CTRL_UP : ℕ := 0x9D
def ALT_DOWN : ℕ := 0x38
def ALT_UP : ℕ := 0xB8
def LETTER_L : ℕ := 0x26
def LETTER_C : ℕ := 0x2E
def F1 : ℕ := 0x3B
def F2 : ℕ := 0x3C
def F3 : ℕ := 0x3D

/-- The table of the source, row by key mode, as character codes. -/
def scancodeRows : List (List UInt8) :=
  -- no caps / no shift
  [[0, 0, 49, 50, 51, 52, 53, 54, 55, 56, 57, 48, 45, 61, 0, 0, 113, 119, 101, 114, 116, 121,
    117, 105, 111, 112, 91, 93, 0, 0, 97, 115, 100, 102, 103, 104, 106, 107, 108, 59, 39, 96, 0,
    92, 122, 120, 99, 118, 98, 110, 109, 44, 46, 47, 0, 42, 0, 32, 0],
  -- no caps / shift
   [0, 0, 33, 64, 35, 36, 37, 94, 38, 42, 40, 41, 95, 43, 0, 0, 81, 87, 69, 82, 84, 89, 85, 73,
    79, 80, 123, 125, 0, 0, 65, 83, 68, 70, 71, 72, 74, 75, 76, 58, 34, 126, 0, 124, 90, 88, 67,
    86, 66, 78, 77, 60, 62, 63, 0, 42, 0, 32, 0],
  -- caps / no shift
   [0, 0, 49, 50, 51, 52, 53, 54, 55, 56, 57, 48, 45, 61, 0, 0, 81, 87, 69, 82, 84, 89, 85, 73,
    79, 80, 91, 93, 0, 0, 65, 83, 68, 70, 71, 72, 74, 75, 76, 59, 39, 96, 0, 92, 90, 88, 67, 86,
    66, 78, 77, 44, 46, 47, 0, 42, 0, 32, 0],
  -- caps / shift
   [0, 0, 33, 64, 35, 36, 37, 94, 38, 42, 40, 41, 95, 43, 0, 0, 113, 119, 101, 114, 116, 121,
    117, 105, 111, 112, 123, 125, 0, 0, 97, 115, 100, 102, 103, 104, 106, 107, 108, 58, 34, 126,
    0, 92, 122, 120, 99, 118, 98, 110, 109, 60, 62, 63, 0, 42, 0, 32, 0]]

/-- Entries past the listed ones are zero, as C initialises them. -/
def scancode_map (mode scode : ℕ) : UInt8 := (scancodeRows.getD mode []).getD scode 0

def handle_scroll (s : Console) : Console :=
  { scroll s with current_location := (NUM_ROWS - 1) * NUM_COLS * 2 }

/-- Append to the line buffer. The index is not checked here: the callers compare the
length with the buffer size first, each in its own way. -/
def append_key (curr_term : TermId) (c : UInt8) (s : Console) : Console :=
  { s with
    keyboard_buffer := Function.update s.keyboard_buffer s.length_key
      { c := c, typed := some curr_term }
    length_key := s.length_key + 1 }

def handle_enter (curr_term : TermId) (s : Console) : Console :=
  let cur_y := s.current_location.tdiv (NUM_COLS * 2)
  if s.length_key = KEYBOARD_BUFFER_SIZE then s
  else
    let s :=
      if cur_y + 1 = NUM_ROWS then handle_scroll s
      else { s with current_location := (cur_y + 1) * NUM_COLS * 2 }
    s.modTerm curr_term fun i => { i with has_enter := true }

/-- `while (video_pointer[current_location] != c) current_location--;` with `n` addresses
left above the first mapped page. The comparison is between an unsigned and a signed
character. Running off the page is a page fault. -/
def searchBack (vmem : ℤ → UInt8) (c : UInt8) : ℕ → ℤ → Option ℤ
  | 0, _ => none
  | n + 1, loc =>
    if ((vmem (VIDEO + loc)).toNat : ℤ) = c.toInt8.toInt then some loc
    else searchBack vmem c n (loc - 1)

/-- Index `length_key - k` of the line buffer, as unsigned arithmetic computes it. -/
def keyIndex (s : Console) (k : ℕ) : ℕ := (s.length_key + addressSpace - k) % addressSpace

def handle_backspace (curr_term : TermId) (s : Console) : Option Console :=
  if s.current_location = 0 then some s
  else if s.length_key = 0 then some s
  else do
    let last := (s.keyboard_buffer (keyIndex s 1)).c
    let before := (s.keyboard_buffer (keyIndex s 2)).c
    let s ←
      if last = 0x09 then some { s with current_location := s.current_location - 8 }
      else if last = 0x0a then
        -- an empty line above: the cursor goes up one row
        if s.length_key > 1 ∧ before = 0x0a then
          some { s with current_location := s.current_location - NUM_COLS * 2 }
        else do
          let loc ← searchBack s.vmem before (s.current_location + 1).toNat s.current_location
          some { s with current_location := loc + 2 }
      else
        let loc := s.current_location - 2
        let s := (s.store (VIDEO + loc) 0).store (VIDEO + loc + 1) (attrib curr_term)
        some { s with current_location := loc }
    some { s with
      keyboard_buffer := Function.update s.keyboard_buffer (keyIndex s 1) NULL_KEY
      length_key := s.length_key - 1 }

/-- One of the four columns of `handle_tab`. -/
def tabColumn (s : Console) : Console :=
  let s := if s.current_location = (NUM_COLS : ℤ) * NUM_ROWS then handle_scroll s else s
  let s := s.store (VIDEO + s.current_location) (scancode_map 0 57)
  let s := s.store (VIDEO + s.current_location + 1) BLACK
  let s := { s with current_location := s.current_location + 2 }
  if s.current_location = (NUM_COLS : ℤ) * NUM_ROWS * 2 then handle_scroll s else s

def handle_tab (s : Console) : Console :=
  if s.length_key = KEYBOARD_BUFFER_SIZE then s
  else tabColumn (tabColumn (tabColumn (tabColumn s)))

/-- Print the character just typed. -/
def echo (curr_term : TermId) (c : UInt8) (s : Console) : Console :=
  if s.current_location < (NUM_COLS : ℤ) * NUM_ROWS * 2 then
    let s := putc curr_term c s
    if s.current_location = (NUM_COLS : ℤ) * NUM_ROWS * 2 then handle_scroll s else s
  else putc curr_term c (handle_scroll s)

/-- The default case: a key that stands for a character. -/
def process_key (curr_term : TermId) (scode : ℕ) (s : Console) : Console :=
  let c := scancode_map s.key_mode scode
  if s.length_key = KEYBOARD_BUFFER_SIZE - 1 then s
  else echo curr_term c (append_key curr_term c s)

/-- A pressed key: the new console and the return value, 1 to 3 for a terminal switch and
4 for Ctrl+C. -/
def process_char (curr_term : TermId) (scode : ℕ) (s : Console) : Option (Console × ℕ) :=
  if scode = BACKSPACE then (handle_backspace curr_term s).map fun s => (s, 0)
  else if scode = TAB then
    if s.length_key = KEYBOARD_BUFFER_SIZE then some (s, 0)
    else some (append_key curr_term 0x09 (handle_tab s), 0)
  else if scode = CAP then
    -- Caps Lock takes the row with or without caps, for the same shift
    if s.cap_on then
      some ({ s with cap_on := false, key_mode := if s.key_mode = 2 then 0 else 1 }, 0)
    else some ({ s with cap_on := true, key_mode := if s.key_mode = 0 then 2 else 3 }, 0)
  else if scode = LSHIFT_DOWN ∨ scode = RSHIFT_DOWN then
    if s.key_mode = 3 ∨ s.key_mode = 1 then some (s, 0)
    else some ({ s with key_mode := if s.key_mode = 2 then 3 else 1 }, 0)
  else if scode = ALT_DOWN then some ({ s with alt_pressed := true }, 0)
  else if scode = F1 then some (s, if s.alt_pressed then 1 else 0)
  else if scode = F2 then some (s, if s.alt_pressed then 2 else 0)
  else if scode = F3 then some (s, if s.alt_pressed then 3 else 0)
  else if scode = CTRL_DOWN then some ({ s with ctrl_pressed := true }, 0)
  else if scode = ENTER then
    if s.length_key = KEYBOARD_BUFFER_SIZE then some (s, 0)
    else some (append_key curr_term 0x0a (handle_enter curr_term s), 0)
  else if scode = LETTER_L ∧ s.ctrl_pressed then
    -- Ctrl+L
    let s := clear curr_term s
    some (clear_keyboard_buffer { s with current_location := 0, ctrl_pressed := false }, 0)
  -- Ctrl+C
  else if scode = LETTER_C ∧ s.ctrl_pressed then some ({ s with ctrl_pressed := false }, 4)
  else some (process_key curr_term scode s, 0)

/-- What the keyboard handler goes on to do after `process_char`. -/
inductive KeyAction where
  | done
  | halt
  | launch (t : TermId)
deriving DecidableEq

/-- The handler up to its final `sti`, for the byte `c` read from the keyboard. A zero byte
is not processed, and leaves the return value the handler then tests uninitialised; it is
taken as zero. -/
def keyboard_interrupt_handler (curr_term : TermId) (c : ℕ) (s : Console) :
    Option (Console × KeyAction) :=
  if c = 0 then some (s, .done)
  else if c ≥ KEY_COUNT then
    if c = LSHIFT_UP ∨ c = RSHIFT_UP then
      if s.key_mode = 2 ∨ s.key_mode = 0 then some (s, .done)
      else some ({ s with key_mode := if s.key_mode = 3 then 2 else 0 }, .done)
    else if c = CTRL_UP then some ({ s with ctrl_pressed := false }, .done)
    else if c = ALT_UP then some ({ s with alt_pressed := false }, .done)
    else some (s, .done)
  else do
    let (s, i) ← process_char curr_term c s
    some (s, if i = 4 then .halt else if i = 1 then .launch 0 else if i = 2 then .launch 1
      else if i = 3 then .launch 2 else .done)

end Kernel391
