import Kernel391.State

/-!
# Process system calls (`syscall_handler.c`)

`execute`, `halt`, `open`, `close` and `vidmap` as functions on the kernel state. Each is
one uninterrupted operation, ended where the kernel gives up control: `Outcome` says how.
`none` is a run that has no further kernel state: a null pointer followed, a local buffer
overrun, or a page fault, after which the exception handlers loop for ever.
-/

namespace Kernel391

/-- How a kernel operation gives up control. -/
inductive Outcome where
  /-- It returns a value to its caller. -/
  | ret (v : ℤ)
  /-- The artificial `iret` of `execute`: a new program starts at its entry point. -/
  | enterUser (entry_point : ℕ)
  /-- The jump to `RET_FROM_IRET`: the `execute` call made by `caller`, whose frame is at
  `esp` and `ebp`, returns `eax`. -/
  | resume (caller : Caller) (esp ebp : UInt32) (eax : ℕ)
deriving DecidableEq

/-! ## Parsing a command -/

/-- The copy loop of the first word, from index `i` with `n` characters left; `none` when
the word is too long for `parsed_command`. -/
def copyWord (command : Bytes) (start_point : ℕ) : ℕ → ℕ → Bytes → Option (ℕ × Bytes)
  | 0, i, parsed => some (i, parsed)
  | n + 1, i, parsed =>
    if command i = 0x20 ∨ command i = 0 then some (i, parsed)
    else if i - start_point > MAX_PARSED - 1 then none
    else copyWord command start_point n (i + 1)
      (Function.update parsed (i - start_point) (command i))

/-- The first word, in the buffer it is copied to, and the range of the second. -/
structure Parsed where
  parsed_command : Bytes
  start_point : ℕ
  end_point : ℕ

/-- Split a command in two words. The first is padded with NULs from the index the copy
stopped at, which counts from the start of the command and not of the word. -/
def parse_command (command parsed : Bytes) : Option Parsed := do
  let start_point := scan (· == 0x20) command 0
  let length_cmd := strlen command
  -- the loop runs up to the length of the whole command
  let (i, parsed) ← copyWord command start_point (length_cmd - start_point) start_point parsed
  -- one byte is skipped, whether a space ended the word or the NUL
  let start_point := scan (· == 0x20) command (i + 1)
  let end_point := scan (fun c => c != 0x20 && c != 0) command start_point
  some { parsed_command := fun j => if i ≤ j ∧ j < MAX_PARSED then 0 else parsed j
         start_point := start_point
         end_point := end_point }

/-- The argument buffer after the copy of the second word. -/
def copyArgument (command : Bytes) (p : Parsed) (argument : Bytes) : Bytes := fun j =>
  if j < p.end_point - p.start_point then command (p.start_point + j)
  else if j = p.end_point - p.start_point then 0
  else argument j

/-! ## The executable check -/

/-- A command that passed the checks. -/
structure Executable where
  inode : ℕ
  entry_point : ℕ
  argument : Bytes
  fs : FsGlobals

inductive CheckResult where
  /-- `return -1` -/
  | refuse (fs : FsGlobals)
  /-- The second word is written past the end of `argument`. -/
  | overrun
  | accept (x : Executable)

/-- Overwrite the start of a buffer. -/
def overwrite (buf : Bytes) (stored : List UInt8) : Bytes := fun i => stored[i]?.getD (buf i)

/-- Parts 1 and 2 of `execute_func`. -/
def check_command (img : Image) (command : Bytes) (fr : Frame) (fs : FsGlobals) :
    CheckResult :=
  match parse_command command fr.parsed_command with
  | none => .refuse fs
  | some p =>
    if p.end_point - p.start_point ≥ MAX_ARG then .overrun
    else
      match read_dentry_by_name img p.parsed_command fs with
      | none => .refuse fs
      | some (d, fs) =>
        let r := read_data img d.inode 0 4
        let buf := overwrite fr.buf r.stored
        if r.ret = -1 then .refuse fs
        else if buf 0 ≠ 0x7f ∨ buf 1 ≠ 0x45 ∨ buf 2 ≠ 0x4c ∨ buf 3 ≠ 0x46 then .refuse fs
        else
          let buf := overwrite buf (read_data img d.inode ENTRY_POINT_START 4).stored
          .accept
            { inode := d.inode
              entry_point := (buf 0).toNat + 2 ^ 8 * (buf 1).toNat + 2 ^ 16 * (buf 2).toNat
                + 2 ^ 24 * (buf 3).toNat
              argument := copyArgument command p fr.argument
              fs := fs }

/-! ## Starting a process -/

def tooManyMessage : List Char := "Too many processes running.\n".toList

/-- The first free process number; it is taken. Without one a message is printed. -/
def get_available_pid (k : Kernel) : Option Pid × Kernel :=
  match (List.finRange MAX_PROCESSES).find? fun i => !k.pid_array i with
  | some i => (some i, { k with pid_array := Function.update k.pid_array i true })
  | none => (none, k.modConsole (puts k.curr_term tooManyMessage))

/-- The process on display becomes the parent. -/
def get_parent_pcb (k : Kernel) : Option Pid := k.running_pid k.curr_term

def init_pcb (p : Pid) (k : Kernel) : Kernel :=
  k.modPcb p fun b => { b with
    parent := get_parent_pcb k
    pid := p
    term_id := k.curr_term
    fd_table := fun fd =>
      if fd = 0 then { b.fd_table 0 with op_table_ptr := .stdin, flags := true }
      else if fd = 1 then { b.fd_table 1 with op_table_ptr := .stdout, flags := true }
      else b.fd_table fd }

/-- Store the program image from `LOAD_START` on. The program page ends at 132 MB; behind
it only the 4 KB video page can be mapped, and a store past that faults. -/
def load_program (p : Pid) (bytes : List UInt8) (k : Kernel) : Option Kernel :=
  let off := LOAD_START - _128MB
  let room := _132MB - LOAD_START
  let page : Bytes := fun i =>
    if off ≤ i ∧ i < off + room then bytes[i - off]?.getD (k.frame p i) else k.frame p i
  let k := { k with frame := Function.update k.frame p page }
  if bytes.length ≤ room then some k
  else if PDE_4KB.p.get (k.paging.page_directory (_132MB / four_MB)) = 1 ∧
      bytes.length ≤ room + four_KB then
    let base : ℤ := PTE.page_base_addr.get (k.paging.page_table 0) * four_KB
    some (k.modConsole fun s => { s with
      vmem := fun a =>
        if base ≤ a ∧ a < base + four_KB then bytes[room + (a - base).toNat]?.getD (s.vmem a)
        else s.vmem a })
  else none

/-- The stack base a new process gets: `_8MB - _8KB * new_pid - 4`. -/
def stack_base (p : Pid) : UInt32 := UInt32.ofNat (_8MB - _8KB * p - 4)

/-- Parts 3 to 6 of `execute_func`, for the process number just taken. -/
def start_process (img : Image) (caller : Caller) (x : Executable) (new_pid : Pid) (fr : Frame)
    (k : Kernel) : Option Kernel := do
  -- 3. paging
  let k := { k with cur_pid := new_pid }
  let k := k.modPaging (remap _128MB (_8MB + new_pid * _4MB))
  -- 4. user program loader
  let k ← load_program new_pid (read_data img x.inode 0 x.fs.f_size).stored k
  -- 5. PCB
  let k := k.modPcb new_pid fun b => { b with
    arg := strcpy b.arg x.argument, ebp := fr.ebp, esp := fr.esp k, caller := caller }
  let k := init_pcb new_pid k
  -- 6. context switch
  let k := { k with tss := { ss0 := KERNEL_DS, esp0 := stack_base new_pid } }
  let k := k.modTerm k.curr_term fun i => { i with ss0 := k.tss.ss0, esp0 := k.tss.esp0 }
  let k := k.modPcb new_pid fun b => { b with ss0 := k.tss.ss0, esp0 := k.tss.esp0 }
  -- the new process runs on the displayed terminal, whoever made the call
  let k := { k with running_term := k.curr_term }
  let k := k.modTerm k.curr_term fun i => { i with running_pid := some new_pid }
  some k.sti

/-- The `execute` system call, made by `caller`, on any image, also one that the kernel could not
have booted from. -/
def execute_func_on (img : Image) (caller : Caller) (command : Bytes) (fr : Frame) (k : Kernel) :
    Option (Kernel × Outcome) :=
  let k := k.cli
  match check_command img command fr k.fs with
  | .overrun => none
  | .refuse fs => some ({ k with fs := fs }.sti, .ret (-1))
  | .accept x =>
    match get_available_pid { k with fs := x.fs } with
    | (none, k) => some (k.sti, .ret (-2))
    | (some new_pid, k) =>
      (start_process img caller x new_pid fr k).map fun k => (k, .enterUser x.entry_point)

/-- `execute` on the machine's own image: it takes nothing else from the machine. -/
def execute_func (m : Machine) (caller : Caller) (command : Bytes) (fr : Frame) (k : Kernel) :
    Option (Kernel × Outcome) :=
  execute_func_on m.img caller command fr k

/-! ## Descriptors -/

/-- The `close` entry of an operation table; calling a null one faults. -/
def OpTable.close : OpTable → Option ℤ
  | .null => none
  | .rtc | .dir | .file => some 0
  | .stdin | .stdout => some (-1)

def setFlags (p : Pid) (fd : Fd) (v : Bool) (k : Kernel) : Kernel :=
  k.modPcb p fun b => { b with
    fd_table := Function.update b.fd_table fd { b.fd_table fd with flags := v } }

def close_func (fd : ℤ) (k : Kernel) : Option (Kernel × ℤ) :=
  if h : fd < 2 ∨ fd > MAX_FILES - 1 then some (k, -1)
  else
    let i : Fd := ⟨fd.toNat, by omega⟩
    let desc := (k.pcb k.cur_pid).fd_table i
    if desc.flags = false then some (k, -1)
    else do
      let r ← desc.op_table_ptr.close
      some (setFlags k.cur_pid i false k, if r ≠ 0 then -1 else 0)

/-- Fill in the descriptor `open` returns. -/
def setDesc (p : Pid) (fd : Fd) (desc : FileDesc) (k : Kernel) : Kernel :=
  k.modPcb p fun b => { b with fd_table := Function.update b.fd_table fd desc }

/-- The `open` system call; a null `filename` is `none`. The descriptor is marked in use
before the file type is looked at. -/
def open_func (m : Machine) (filename : Option Bytes) (k : Kernel) : Kernel × ℤ :=
  let p := k.cur_pid
  match filename with
  | none => (k, -1)
  | some name =>
    if strncmp name (literal ['s', 't', 'd', 'i', 'n'] fun _ => 0) 5 = 0 then
      (setDesc p 0 { (k.pcb p).fd_table 0 with op_table_ptr := .stdin, flags := true } k, 0)
    else if strncmp name (literal ['s', 't', 'd', 'o', 'u', 't'] fun _ => 0) 6 = 0 then
      (setDesc p 1 { (k.pcb p).fd_table 1 with op_table_ptr := .stdout, flags := true } k, 0)
    else
      match read_dentry_by_name m.img name k.fs with
      | none => (k, -1)
      | some (d, fs) =>
        let k := { k with fs := fs }
        match (List.finRange MAX_FILES).find? fun fd =>
            decide (2 ≤ fd.val) && !((k.pcb p).fd_table fd).flags with
        | none => (k, -1)
        | some fd =>
          let desc := { (k.pcb p).fd_table fd with flags := true, file_position := 0 }
          if d.file_type = 0 then
            let k := k.modTerm k.running_term fun i => { i with rtc_freq := MIN_RTC_FREQ }
            (setDesc p fd { desc with inode := 0, op_table_ptr := .rtc } k, fd.val)
          else if d.file_type = 1 then
            (setDesc p fd { desc with inode := 0, op_table_ptr := .dir } k, fd.val)
          else if d.file_type = 2 then
            (setDesc p fd { desc with inode := d.inode, op_table_ptr := .file } k, fd.val)
          -- an unknown type: the descriptor stays marked, and keeps its old operations
          else (setDesc p fd desc k, -1)

/-! ## Ending a process -/

/-- The loop of `halt_func` over the victim's descriptors. The flag is read from the
victim's PCB; the `close` system call acts on the running process. -/
def close_files (victim : Pid) (k : Kernel) : Option Kernel :=
  (List.finRange MAX_FILES).foldlM (fun k (fd : Fd) =>
    if ((k.pcb victim).fd_table fd).flags then (close_func fd k).map Prod.fst else some k) k

/-- Save the running stack pointer and frame pointer in a PCB. -/
def saveContext (p : Pid) (fr : Frame) (k : Kernel) : Kernel :=
  k.modPcb p fun b => { b with curr_ebp := fr.ebp, curr_esp := fr.esp k }

/-- First part of `halt_func`: the process and the terminal to halt. Status 1 is taken to
be Ctrl+C, and halts the process on display. -/
def halt_target (status : UInt8) (fr : Frame) (k : Kernel) : Option (Pid × TermId × Kernel) :=
  if status = 1 then do
    let victim ← k.running_pid k.curr_term
    let halt_term := k.curr_term
    let k ←
      -- the running process is put aside as `schedule` does it
      if k.running_term ≠ halt_term then do
        let running ← k.running_pid k.running_term
        let k := saveContext running fr k
        let k := k.modTerm k.running_term fun i => { i with
          esp0 := k.tss.esp0, ss0 := k.tss.ss0 }
        some { k with running_term := halt_term }
      else some k
    some (victim, halt_term, k.modConsole clear_keyboard_buffer)
  else
    -- normal halt in scheduling
    let victim := k.cur_pid
    let halt_term := (k.pcb k.cur_pid).term_id
    if halt_term ≠ k.curr_term then
      some (victim, halt_term, k.modConsole (clear_keyboard_backup halt_term))
    else some (victim, halt_term, k.modConsole clear_keyboard_buffer)

/-- Last part of `halt_func`, for a process with a parent: back to the parent, in the stack
frame of the `execute` call that created the process. Whether that frame is still there is not
part of the state: `FrameKept` says when it is. -/
def return_to_parent (status : UInt8) (victim parent : Pid) (halt_term : TermId) (k : Kernel) :
    Kernel × Outcome :=
  let parent_pid := (k.pcb parent).pid
  let k := k.modTerm halt_term fun i => { i with running_pid := some parent_pid }
  let k := k.modPaging (remap _128MB (_8MB + parent_pid * _4MB))
  let b := k.pcb victim
  -- only `tss` gets the saved stack pointer, not `term[halt_term]`
  let k := { k with tss := { k.tss with esp0 := b.esp }, cur_pid := parent_pid }
  (k.sti, .resume b.caller b.esp b.ebp status.toNat)

/-- The `halt` system call. `fr` is its own frame, `frShell` that of the `execute` call
that replaces a terminal's first shell. Should that call return, the source goes on to
follow a null parent pointer. -/
def halt_func (m : Machine) (status : UInt8) (fr frShell : Frame) (k : Kernel) :
    Option (Kernel × Outcome) := do
  let (victim, halt_term, k) ← halt_target status fr k.cli
  let parent_pcb := (k.pcb victim).parent
  -- the slot is free before its files are closed
  let k := { k with pid_array := Function.update k.pid_array (k.pcb victim).pid false }
  let k ← close_files victim k
  match parent_pcb with
  | none =>
    -- the last process of its terminal: a new shell
    let k := k.modTerm halt_term fun i => { i with running_pid := none }
    match execute_func m .kernel m.shell frShell k with
    | some (k, .enterUser e) => some (k, .enterUser e)
    | _ => none
  | some parent => some (return_to_parent status victim parent halt_term k)

/-! ## Video memory for user programs -/

/-- Store one byte of a table of words. -/
def storeByte (table : ℕ → Word) (off : ℕ) (b : UInt8) : ℕ → Word :=
  Function.update table (off / 4) ((BitField.mk (8 * (off % 4)) 8).set (table (off / 4)) b.toNat)

/-- Store one byte in physical memory. The kernel's code, its other data and its stacks are not
followed byte by byte: a store there, which the source makes like any other, is `none`. -/
def storePhysical (m : Machine) (addr : ℕ) (b : UInt8) (k : Kernel) : Option Kernel :=
  let pd := m.layout.page_directory_array
  let pt := m.layout.page_table_array
  if pd ≤ addr ∧ addr < pd + four_KB then
    some (k.modPaging fun pg =>
      { pg with page_directory := storeByte pg.page_directory (addr - pd) b })
  else if pt ≤ addr ∧ addr < pt + four_KB then
    some (k.modPaging fun pg => { pg with page_table := storeByte pg.page_table (addr - pt) b })
  else if VIDEO ≤ addr ∧ addr < VIDEO + 4 * four_KB then
    some (k.modConsole fun s => s.store addr b)
  else if h : _8MB ≤ addr ∧ (addr - _8MB) / _4MB < MAX_PROCESSES then
    let p : Pid := ⟨(addr - _8MB) / _4MB, h.2⟩
    some { k with
      frame := Function.update k.frame p
        (Function.update (k.frame p) ((addr - _8MB) % _4MB) b) }
  else none

/-- Physical address of a byte the kernel accesses at a virtual address. -/
def kernelTranslate (m : Machine) (pg : Paging) (va : Word) : Option ℕ :=
  (translate m.layout pg (fun _ _ => 0) va).map Mapping.addr

/-- The kernel stores a word through a pointer, lowest byte first. -/
def storeThrough (m : Machine) (ptr : Word) (v : ℕ) (k : Kernel) : Option Kernel :=
  (List.range 4).foldlM (fun k' i => do
    let addr ← kernelTranslate m k.paging (ptr + BitVec.ofNat 32 i)
    storePhysical m addr (UInt8.ofNat (v / 2 ^ (8 * i))) k') k

/-- The part of `vidmap_func` after its store; callers in the kernel pass the address of a
local variable. -/
def vidmap (m : Machine) (k : Kernel) : Kernel :=
  k.modPaging (remap_vid m.layout _132MB VIDEO)

/-- The `vidmap` system call. Its pointer is compared with two addresses, and then used
with the kernel's rights. -/
def vidmap_func (m : Machine) (screen_start : Word) (k : Kernel) : Option (Kernel × ℤ) :=
  if screen_start.toNat = 0 ∨ screen_start.toNat = _4MB then some (k, -1)
  else do
    let k ← storeThrough m screen_start _132MB k
    some (vidmap m k, 0)

end Kernel391
