import Kernel391.Process

/-!
# Reading and writing through descriptors

`read`, `write` and `getargs` (`syscall_handler.c`) with the drivers behind the operation
tables (`file_system.c`, `terminal.c`, `rtc_handler.c`).

What a call stores in the caller's buffer is returned as a list of bytes, for one address
after the other from `buf` on. The buffer is memory of the caller, none of which these
calls read. A call that waits is `none` until what it waits for has happened: here
`terminal_read` runs in one piece from the moment its line is there (`LineInput` takes it
apart), and the RTC's interrupts, which always come, are left out.
-/

namespace Kernel391

/-! ## Directory -/

/-- `sizeof (dentry_t)` -/
def sizeof_dentry : ℕ := 64

inductive DentryResult where
  /-- `return -1` -/
  | missing
  /-- A name without a NUL is copied past the end of the caller's `dentry`. -/
  | overrun
  | found (d : Dentry)

def read_dentry_by_index (img : Image) (index : ℕ) : DentryResult :=
  if index ≥ img.num_dir_entries then .missing
  else if strlen (img.file_name index) ≥ sizeof_dentry then .overrun
  else
    .found
      { file_name := img.file_name index
        file_type := img.file_type index
        inode := img.inode index }

/-- The next name of the directory; neither descriptor nor `nbytes` is looked at. -/
def dir_read (img : Image) (fs : FsGlobals) : Option (FsGlobals × ReadResult) :=
  match read_dentry_by_index img fs.dir_number with
  | .overrun => none
  | .missing => some ({ fs with dir_number := 0 }, { ret := 0, stored := [] })
  | .found d =>
    let length := strlen d.file_name
    let length := if length ≥ MAX_NAME_LENGTH then MAX_NAME_LENGTH else length
    some ({ fs with dir_number := fs.dir_number + 1 },
      { ret := toInt32 length, stored := strncpy d.file_name length })

/-! ## Files -/

/-- Read from the current position. The count is unsigned on the way into `read_data` and
on the way into the position, also when it is -1. -/
def file_read (m : Machine) (fd : Fd) (nbytes : ℤ) (k : Kernel) : Kernel × ReadResult :=
  let desc := (k.pcb k.cur_pid).fd_table fd
  let r := read_data m.img desc.inode desc.file_position (toUnsigned nbytes)
  (setDesc k.cur_pid fd
    { desc with file_position := (desc.file_position + toUnsigned r.ret) % addressSpace } k, r)

/-! ## Terminal -/

/-- The pending line, once there is one. The loop compares signed numbers, the test behind
it unsigned ones. -/
def terminal_read (nbytes : ℤ) (k : Kernel) : Option (Kernel × ReadResult) :=
  let t := k.running_term
  if (k.console.term t).has_enter = false then none
  else
    let s := k.console.modTerm t fun i => { i with has_enter := false }
    let i := nbytes.toNat
    let stored := (List.range (min i s.length_key)).map fun j => (s.keyboard_buffer j).c
    let i := if s.length_key < toUnsigned nbytes then s.length_key else i
    some ({ k with console := clear_keyboard_buffer s }, { ret := toInt32 i, stored := stored })

/-- Print a character on the running terminal, displayed or not. -/
def printChar (k : Kernel) (c : UInt8) (s : Console) : Console :=
  if k.running_term = k.curr_term then putc k.curr_term c s else putc_term c k.running_term s

/-- The bytes of a buffer. -/
def bytesOf (buf : Bytes) (nbytes : ℤ) : List UInt8 := (List.range nbytes.toNat).map buf

/-- `return i + 1`, with `i` one past the last byte already. -/
def terminal_write (buf : Bytes) (nbytes : ℤ) (k : Kernel) : Kernel × ℤ :=
  (k.modConsole fun s => (bytesOf buf nbytes).foldl (fun s c => printChar k c s) s,
    toInt32 (nbytes.toNat + 1))

/-! ## RTC -/

/-- The number of interrupts to wait for is a quotient by the terminal's rate. -/
def rtc_read (k : Kernel) : Option (Kernel × ReadResult) :=
  if (k.term k.running_term).rtc_freq = 0 then none else some (k, { ret := 0, stored := [] })

/-- The rate is read as a signed word, whatever `nbytes` is. -/
def rtc_write (buf : Bytes) (k : Kernel) : Kernel × ℤ :=
  let interrupt_freq := toInt32 ((buf 0).toNat + 2 ^ 8 * (buf 1).toNat + 2 ^ 16 * (buf 2).toNat
    + 2 ^ 24 * (buf 3).toNat)
  if interrupt_freq < MIN_RTC_FREQ ∨ interrupt_freq > MAX_RTC_FREQ then (k, -1)
  else (k.modTerm k.running_term fun i => { i with rtc_freq := interrupt_freq.toNat }, 4)

/-! ## System calls -/

/-- A call that returns -1 and does nothing. -/
def ReadResult.failed : ReadResult := { ret := -1, stored := [] }

/-- The `read` entry of an operation table; calling a null one faults. -/
def OpTable.read (m : Machine) (fd : Fd) (nbytes : ℤ) (k : Kernel) :
    OpTable → Option (Kernel × ReadResult)
  | .null => none
  | .rtc => rtc_read k
  | .dir => (dir_read m.img k.fs).map fun (fs, r) => ({ k with fs := fs }, r)
  | .file => some (file_read m fd nbytes k)
  | .stdin => terminal_read nbytes k
  | .stdout => some (k, .failed)

/-- The `write` entry. -/
def OpTable.write (buf : Bytes) (nbytes : ℤ) (k : Kernel) : OpTable → Option (Kernel × ℤ)
  | .null => none
  | .rtc => some (rtc_write buf k)
  | .dir | .file | .stdin => some (k, -1)
  | .stdout => some (terminal_write buf nbytes k)

/-- The `read` system call. -/
def read_func (m : Machine) (fd : ℤ) (buf : Word) (nbytes : ℤ) (k : Kernel) :
    Option (Kernel × ReadResult) :=
  if h : fd < 0 ∨ fd > MAX_FILES - 1 ∨ buf = 0 then some (k, .failed)
  else
    let i : Fd := ⟨fd.toNat, by omega⟩
    let desc := (k.pcb k.cur_pid).fd_table i
    if desc.flags = false then some (k, .failed)
    else desc.op_table_ptr.read m i nbytes k

/-- The `write` system call; a null `buf` is `none`. The calls that fail early leave
interrupts disabled. -/
def write_func (fd : ℤ) (buf : Option Bytes) (nbytes : ℤ) (k : Kernel) : Option (Kernel × ℤ) :=
  let k := k.cli
  match buf with
  | none => some (k, -1)
  | some buf =>
    if h : fd < 0 ∨ fd > MAX_FILES - 1 then some (k, -1)
    else
      let i : Fd := ⟨fd.toNat, by omega⟩
      let desc := (k.pcb k.cur_pid).fd_table i
      if desc.flags = false then some (k, -1)
      else (desc.op_table_ptr.write buf nbytes k).map fun (k, r) => (k.sti, r)

/-- The `getargs` system call, with a buffer in the program's own memory. Where the bytes stored
run past what is mapped, the copy faults and nothing is returned. -/
def getargs_func (buf : Word) (nbytes : ℤ) (k : Kernel) : ReadResult :=
  let arg := (k.pcb k.cur_pid).arg
  if buf = 0 ∨ nbytes = 0 then .failed
  else if strlen arg = 0 then .failed
  else { ret := 0, stored := strncpy arg (toUnsigned nbytes) }

end Kernel391
