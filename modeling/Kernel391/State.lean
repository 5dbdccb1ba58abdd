import Kernel391.FileSystem
import Kernel391.Paging
import Kernel391.Console

/-!
# The kernel state

The globals of the kernel as one record: process table and process control blocks, the
three terminals, the task state segment, the page tables, the console, the file system
driver. PCBs live at fixed addresses (`get_specific_pcb`), one per process number, so a
`pcb_t *` is a process number here and `NULL` is `none`; a `running_pid` of -1 is `none`
as well. A PCB shares its 32 KB block with the kernel stack of its process, which grows down
towards it; of the stacks, only the pointers into them are modelled.

`Pcb.caller` is the one field the source does not have: a history variable that records
who issued the `execute` whose stack frame `esp` and `ebp` point into.

`Machine` collects what stays fixed while the kernel runs: the file system image, the
bytes behind the string literal `"shell"`, the addresses the linker chose.
-/

namespace Kernel391

abbrev MAX_PROCESSES : ℕ := 6
abbrev MAX_FILES : ℕ := 8

instance : NeZero MAX_PROCESSES := ⟨by decide⟩
instance : NeZero MAX_FILES := ⟨by decide⟩

/-- Process numbers: the PCB slots. -/
abbrev Pid := Fin MAX_PROCESSES

/-- File descriptors. -/
abbrev Fd := Fin MAX_FILES

def MAX_PARSED : ℕ := 10
def MAX_ARG : ℕ := 1024
def _8MB : ℕ := 0x800000
def _4MB : ℕ := 0x400000
def _8KB : ℕ := 0x8000
def _128MB : ℕ := 0x8000000
def _132MB : ℕ := 0x8400000
def LOAD_START : ℕ := 0x08048000
def ENTRY_POINT_START : ℕ := 24
def KERNEL_DS : UInt16 := 0x18
def MAX_RTC_FREQ : ℕ := 1024
def MIN_RTC_FREQ : ℕ := 2

/-! ## Process control blocks -/

/-- The operation table copied into a descriptor; `null` is a table of null pointers, as
memory that was never assigned holds. -/
inductive OpTable where
  | null
  | rtc
  | dir
  | file
  | stdin
  | stdout
deriving DecidableEq

structure FileDesc where
  op_table_ptr : OpTable
  inode : ℕ
  file_position : ℕ
  flags : Bool
deriving DecidableEq

/-- Who issued an `execute` call: a process, by system call, or the kernel itself. -/
inductive Caller where
  | process (p : Pid)
  | kernel
deriving DecidableEq

structure Pcb where
  fd_table : Fd → FileDesc
  pid : Pid
  parent : Option Pid
  term_id : TermId
  esp : UInt32
  ebp : UInt32
  curr_esp : UInt32
  curr_ebp : UInt32
  arg : Bytes
  ss0 : UInt16
  esp0 : UInt32
  caller : Caller

/-- `sizeof (pcb_t)`: eight 28-byte descriptors, the padded `pid`, six words, the argument
buffer, and the padded saved stack. -/
def sizeof_pcb : ℕ := 8 * 28 + 4 + 6 * 4 + MAX_ARG + 4 + 4

/-- Address of the PCB of a process, at the low end of its kernel stack. -/
def get_specific_pcb (pid : Pid) : ℕ := _8MB - _8KB * (1 + pid)

/-! ## Kernel -/

/-- The scheduling fields of `term_info`. -/
structure TermInfo where
  term_id : TermId
  running_pid : Option Pid
  ss0 : UInt16
  esp0 : UInt32
  rtc_freq : ℕ

structure Tss where
  ss0 : UInt16
  esp0 : UInt32
deriving DecidableEq

structure Kernel where
  pid_array : Pid → Bool
  cur_pid : Pid
  pcb : Pid → Pcb
  term : TermId → TermInfo
  curr_term : TermId
  running_term : TermId
  tss : Tss
  paging : Paging
  console : Console
  fs : FsGlobals
  /-- The 4 MB frame of each process, by offset. -/
  frame : Pid → Bytes
  /-- The interrupt flag. -/
  intf : Bool

namespace Kernel

def cli (k : Kernel) : Kernel := { k with intf := false }
def sti (k : Kernel) : Kernel := { k with intf := true }

def modPcb (k : Kernel) (p : Pid) (f : Pcb → Pcb) : Kernel :=
  { k with pcb := Function.update k.pcb p (f (k.pcb p)) }

def modTerm (k : Kernel) (t : TermId) (f : TermInfo → TermInfo) : Kernel :=
  { k with term := Function.update k.term t (f (k.term t)) }

def modConsole (k : Kernel) (f : Console → Console) : Kernel :=
  { k with console := f k.console }

def modPaging (k : Kernel) (f : Paging → Paging) : Kernel :=
  { k with paging := f k.paging }

/-- The process whose program runs on terminal `t`, if any. -/
abbrev running_pid (k : Kernel) (t : TermId) : Option Pid := (k.term t).running_pid

end Kernel

/-! ## Registers on kernel entry -/

/-- What the processor and the compiler supply at the point where a kernel function reads
its registers or its uninitialised locals. The kernel stack was entered at `tss.esp0`, and
`pushed` bytes lie between there and the stack pointer. -/
structure Frame where
  pushed : UInt32
  pushed_pos : pushed ≠ 0
  ebp : UInt32
  /-- Memory from `parsed_command` on. -/
  parsed_command : Bytes
  /-- Memory from `argument` on. -/
  argument : Bytes
  /-- The four bytes of `buf`. -/
  buf : Bytes

/-- The stack pointer at that point. -/
def Frame.esp (fr : Frame) (k : Kernel) : UInt32 := k.tss.esp0 - fr.pushed

/-! ## What stays fixed -/

/-- The name the kernel starts its shells by. -/
def shellName : List Char := ['s', 'h', 'e', 'l', 'l']

/-- First four bytes of an executable. -/
def elfMagic : List UInt8 := [0x7f, 0x45, 0x4c, 0x46]

/-- The image holds a valid executable under the name `chars`: the lookup finds an entry,
its inode exists, and the file is an ELF file that fits the program page. -/
structure HoldsExecutable (img : Image) (chars : List Char) : Prop where
  found : ∀ fname fs, HoldsString fname chars →
    ∃ d fs', read_dentry_by_name img fname fs = some (d, fs') ∧ d.inode < img.num_inodes ∧
      (read_data img d.inode 0 4).stored = elfMagic ∧
      LOAD_START + (read_data img d.inode 0 fs'.f_size).stored.length ≤ _132MB

structure Machine where
  img : Image
  layout : Layout
  /-- Bytes after the literal `"shell"` in the kernel's read-only data. -/
  after_shell : Bytes
  /-- The word found there fits the argument buffer. -/
  after_shell_short :
    let s := literal shellName after_shell
    let start := scan (· == 0x20) s (shellName.length + 1)
    scan (fun c => c != 0x20 && c != 0) s start - start < MAX_ARG
  shell_valid : HoldsExecutable img shellName

/-- The string the kernel passes to `execute`. -/
def Machine.shell (m : Machine) : Bytes := literal shellName m.after_shell

end Kernel391
