import Kernel391.Commands
import Kernel391.ProcessTheorems

/-!
# Commands the kernel can always run

`execute` parses its command byte by byte and trusts the file system image. Here a command
that is a plain word is followed through the parser and the checks; for the shell this
shows that `execute` starts one whenever a process number is free, so that the kernel
boots, a terminal can always be opened, and the last process of a terminal can always be
replaced.
-/

namespace Kernel391

open TransitionSystem

/-! ## Parsing a plain word -/

/-- A literal that is one short word parses to that word. -/
theorem parse_command_literal {chars : List Char} (after parsed : Bytes)
    (hword : ∀ c ∈ chars, WordChar c.toUInt8) (hlen : chars.length < MAX_PARSED) :
    ∃ p, parse_command (literal chars after) parsed = some p ∧
      HoldsString p.parsed_command chars ∧
      p.start_point = scan (· == 0x20) (literal chars after) (chars.length + 1) ∧
      p.end_point =
        scan (fun c => c != 0x20 && c != 0) (literal chars after) p.start_point := by
  have hmax : MAX_PARSED = 10 := rfl
  have hlt : chars.length < addressSpace := by
    unfold addressSpace
    omega
  have hholds := literal_holds chars after
  have hchar : ∀ j, j < chars.length → WordChar (literal chars after j) := by
    intro j hj
    rw [hholds.1 j chars[j] (List.getElem?_eq_getElem hj)]
    exact hword _ (List.getElem_mem hj)
  -- there is no space to skip
  have hstart : word_start (literal chars after) = 0 := by
    refine scan_eq le_rfl (by omega) (fun j hj hj0 => by omega) ?_
    by_cases hzero : chars.length = 0
    · have hnul := hholds.2
      rw [hzero] at hnul
      rw [hnul]
      rfl
    · have hne := (hchar 0 (by omega)).1
      simpa using hne
  -- the word is the whole string
  have hstop : word_stop (literal chars after) = chars.length := by
    unfold word_stop
    rw [hstart]
    refine scan_eq (Nat.zero_le _) (by omega) (fun j _ hj => wordChar_iff.mpr (hchar j hj)) ?_
    rw [hholds.2]
    rfl
  obtain ⟨p, hparse, hval, hpstart, hpstop⟩ :=
    parse_command_eq ⟨chars.length, hlt, hholds.2⟩ parsed (by omega)
  rw [hstart, hstop] at hval
  refine ⟨p, hparse, ⟨fun j c hc => ?_, ?_⟩, ?_, ?_⟩
  · have hj : j < chars.length := (List.getElem?_eq_some_iff.mp hc).1
    rw [hval j, if_neg (by omega), if_pos (by omega), Nat.zero_add]
    exact hholds.1 j c hc
  · rw [hval, if_pos ⟨le_rfl, hlen⟩]
  · rw [hpstart, argument_start, hstop]
  · rw [hpstop, hpstart]
    rfl

/-! ## The checks -/

/-- A read that stays inside one data block returns the number of bytes it took. -/
theorem readDataFrom_ret (img : Image) (inode offset : ℕ) {n : ℕ} (i dbi : ℕ) {dli : ℕ} (ptr : ℕ)
    (h : dli + n < 4096) :
    ∃ j, i ≤ j ∧ j ≤ i + n ∧ (readDataFrom img inode offset n i dbi dli ptr).ret = toInt32 j := by
  induction n generalizing i dli ptr with
  | zero => exact ⟨i, le_rfl, le_rfl, by simp only [readDataFrom]⟩
  | succ n ih =>
    rw [readDataFrom]
    by_cases hend : (i + offset) % addressSpace ≥ img.length inode
    · rw [if_pos hend]
      exact ⟨i, le_rfl, by omega, by dsimp only⟩
    -- the block is not used up, so the loop goes on in it
    · have hline : ¬ (dli + 1) % FOUR_KB = 0 := by
        unfold FOUR_KB
        omega
      rw [if_neg hend]
      dsimp only
      rw [if_neg hline]
      obtain ⟨j, hij, hjn, hret⟩ := ih (i + 1) (ptr + 1) (show dli + 1 + n < 4096 by omega)
      exact ⟨j, by omega, by omega, hret⟩

/-- The four-byte read of the header of an existing file does not fail. -/
theorem read_data_header_ret {img : Image} {inode : ℕ} (h : inode < img.num_inodes) :
    (read_data img inode 0 4).ret ≠ -1 := by
  unfold read_data
  rw [if_neg (by omega)]
  obtain ⟨j, -, hj, hret⟩ := readDataFrom_ret img inode 0 0 (0 / FOUR_KB)
    (img.data_start (img.data_block inode (0 / FOUR_KB)) + 0 % FOUR_KB)
    (show 0 % FOUR_KB + 4 < 4096 by decide)
  dsimp only
  rw [hret]
  unfold toInt32 addressSpace
  -- five counts, none of them -1
  have hcases : j = 0 ∨ j = 1 ∨ j = 2 ∨ j = 3 ∨ j = 4 := by omega
  rcases hcases with rfl | rfl | rfl | rfl | rfl <;> decide

theorem shell_word : ∀ c ∈ shellName, WordChar c.toUInt8 := by
  intro c hc
  unfold shellName at hc
  simp only [List.mem_cons, List.not_mem_nil, or_false] at hc
  unfold WordChar
  rcases hc with rfl | rfl | rfl | rfl | rfl <;> decide

/-- `execute("shell")` passes every check. -/
theorem check_command_shell (m : Machine) (fr : Frame) (fs : FsGlobals) :
    ∃ x, check_command m.img m.shell fr fs = .accept x ∧
      LOAD_START + (read_data m.img x.inode 0 x.fs.f_size).stored.length ≤ _132MB := by
  obtain ⟨p, hparse, hholds, hstart, hend⟩ :=
    parse_command_literal m.after_shell fr.parsed_command shell_word (by decide)
  have hfit : p.end_point - p.start_point < MAX_ARG := by
    rw [hend, hstart]
    exact m.after_shell_short
  obtain ⟨d, fs', hfind, hinode, hmagic, hsize⟩ := m.shell_valid.found p.parsed_command fs hholds
  have hret := read_data_header_ret hinode
  obtain ⟨x, hx, hxinode, hxfs⟩ : ∃ x, check_command m.img m.shell fr fs = .accept x ∧
      x.inode = d.inode ∧ x.fs = fs' := by
    unfold check_command Machine.shell
    rw [hparse]
    dsimp only
    rw [if_neg (by omega), hfind]
    dsimp only
    rw [if_neg hret, hmagic, if_neg (by simp [overwrite, elfMagic])]
    exact ⟨_, rfl, rfl, rfl⟩
  refine ⟨x, hx, ?_⟩
  rw [hxinode, hxfs]
  exact hsize

/-- A shell starts whenever a process number is free. -/
theorem execute_shell_isSome (m : Machine) (caller : Caller) (fr : Frame) {k : Kernel} {p : Pid}
    (hp : k.pid_array p = false) :
    ∃ k' e, execute_func m caller m.shell fr k = some (k', .enterUser e) := by
  obtain ⟨x, hcheck, hsize⟩ := check_command_shell m fr k.fs
  obtain ⟨q, k₁, hget⟩ := get_available_pid_of_free (k := { k.cli with fs := x.fs }) hp
  obtain ⟨k₂, hstart⟩ := Option.isSome_iff_exists.mp
    (start_process_isSome m.img caller q fr k₁ hsize)
  refine ⟨k₂, x.entry_point, ?_⟩
  unfold execute_func execute_func_on
  dsimp only
  rw [show check_command m.img m.shell fr k.cli.fs = .accept x from hcheck]
  dsimp only
  rw [hget]
  dsimp only
  rw [hstart]
  rfl

/-- The kernel boots, whatever memory holds. -/
theorem boot_starts (m : Machine) (mem : BootMemory) : ∃ k, Started m mem k := by
  obtain ⟨k, e, hex⟩ := execute_shell_isSome m .kernel
    { pushed := 1, pushed_pos := by decide, ebp := 0, parsed_command := fun _ => 0,
      argument := fun _ => 0, buf := fun _ => 0 } (k := boot m mem) (p := 0) rfl
  exact ⟨k, _, e, hex⟩

/-- `execute("shell")` returns or starts a shell; it never faults. -/
theorem execute_shell_ne_none (m : Machine) (caller : Caller) (fr : Frame) (k : Kernel) :
    ∃ r, execute_func m caller m.shell fr k = some r := by
  by_cases hfree : ∃ p, k.pid_array p = false
  · obtain ⟨p, hp⟩ := hfree
    obtain ⟨k', e, hex⟩ := execute_shell_isSome m caller fr hp
    exact ⟨_, hex⟩
  · obtain ⟨x, hcheck, -⟩ := check_command_shell m fr k.fs
    unfold execute_func execute_func_on
    dsimp only
    rw [show check_command m.img m.shell fr k.cli.fs = .accept x from hcheck]
    dsimp only
    cases hget : get_available_pid { k.cli with fs := x.fs } with
    | mk r k₁ =>
      cases r with
      | none => exact ⟨_, rfl⟩
      | some p => exact absurd ⟨p, (get_available_pid_some hget).1⟩ hfree

/-! ## A concrete machine -/

/-- An image with one file: an executable of 28 bytes under the name `shell`. -/
def sampleImage : Image := fun a =>
  if a = 0 ∨ a = 4 ∨ a = 8 then 1
  else if 64 ≤ a ∧ a < 69 then (shellName.getD (a - 64) 'x').toUInt8
  else if a = 96 then 2
  else if a = 4096 then 28
  else if 8192 ≤ a ∧ a < 8196 then elfMagic.getD (a - 8192) 0
  else if a = 8217 then 0x80
  else if a = 8218 then 0x04
  else if a = 8219 then 0x08
  else 0

/-- An image holds the shell if the lookup of the plain string finds it and the file is in
order. -/
theorem holdsExecutable_shell {img : Image} {i : ℕ}
    (hfirst : (List.range img.num_dir_entries).find?
      (fun i => dentryMatches img (literal shellName fun _ => 0) i) = some i)
    (hinode : img.inode i < img.num_inodes)
    (hmagic : (read_data img (img.inode i) 0 4).stored = elfMagic)
    (hsize : LOAD_START + (read_data img (img.inode i) 0 (img.length (img.inode i))).stored.length
      ≤ _132MB) : HoldsExecutable img shellName where
  found fname fs hname := by
    have hlit := literal_holds shellName fun _ => 0
    have hlen : ∀ {s : Bytes}, HoldsString s shellName → strlen s = 5 := by
      intro s hs
      rw [hs.strlen_eq (by decide) fun c hc => (shell_word c hc).2]
      rfl
    have hcongr : read_dentry_by_name img fname fs =
        read_dentry_by_name img (literal shellName fun _ => 0) fs := by
      refine read_dentry_by_name_congr ?_ fun j hj => ?_
      · rw [hlen hname, hlen hlit]
      · rw [hlen hname] at hj
        exact strlen_congr_of_holds hname hlit j hj
    have hfind : read_dentry_by_name img fname fs =
        some ({ file_name := img.file_name i, file_type := img.file_type i,
                inode := img.inode i },
          { fs with inode_number := img.inode i, f_size := img.length (img.inode i) }) := by
      rw [hcongr]
      unfold read_dentry_by_name
      rw [hlen hlit, if_neg (by decide), hfirst]
      rfl
    exact ⟨_, _, hfind, hinode, hmagic, hsize⟩

theorem sampleImage_holds_shell : HoldsExecutable sampleImage shellName :=
  holdsExecutable_shell (i := 0) (by decide +kernel) (by decide +kernel) (by decide +kernel)
    (by decide +kernel)

/-- The addresses of the tables in the kernel image. -/
def sampleLayout : Layout where
  page_directory_array := 0x410000
  page_table_array := 0x40b000
  pd_aligned := by decide
  pt_aligned := by decide
  pd_kernel := by decide
  pt_kernel := by decide

def sampleMachine : Machine where
  img := sampleImage
  layout := sampleLayout
  after_shell := fun _ => 0
  after_shell_short := by decide +kernel
  shell_valid := sampleImage_holds_shell

/-- The image with a second entry, for the same file. -/
def listedImage (name : List Char) (file_type : UInt8) : Image := fun a =>
  if a = 0 then 2
  else if 128 ≤ a ∧ a < 160 then (name.map Char.toUInt8).getD (a - 128) 0
  else if a = 160 then file_type
  else sampleImage a

/-- The machine with another image. -/
def imageMachine (img : Image) (h : HoldsExecutable img shellName) : Machine :=
  { sampleMachine with img := img, shell_valid := h }

/-- A kernel entry with 100 bytes on the kernel stack. -/
def sampleFrame : Frame where
  pushed := 100
  pushed_pos := by decide
  ebp := 0x7fff00
  parsed_command _ := 0
  argument _ := 0
  buf _ := 0

/-- All memory zero. -/
def sampleMemory : BootMemory where
  pcb _ :=
    { fd_table := fun _ => { op_table_ptr := .null, inode := 0, file_position := 0, flags := false }
      pid := 0, parent := none, term_id := 0, esp := 0, ebp := 0, curr_esp := 0, curr_ebp := 0
      arg := fun _ => 0, ss0 := 0, esp0 := 0, caller := .kernel }
  paging := { page_directory := fun _ => 0, page_table := fun _ => 0 }
  console := Console.blank
  frame _ _ := 0
  fs := { dir_number := 0, inode_number := 0, f_size := 0 }

/-- The concrete machine with its first shell running. -/
def sampleKernel : Kernel :=
  ((execute_func sampleMachine .kernel sampleMachine.shell sampleFrame
    (boot sampleMachine sampleMemory)).map Prod.fst).getD (boot sampleMachine sampleMemory)

theorem sampleKernel_shell : ∃ e, execute_func sampleMachine .kernel sampleMachine.shell sampleFrame
    (boot sampleMachine sampleMemory) = some (sampleKernel, .enterUser e) := by
  obtain ⟨k, e, hex⟩ := execute_shell_isSome sampleMachine .kernel sampleFrame
    (k := boot sampleMachine sampleMemory) (p := 0) rfl
  have hk : sampleKernel = k := by
    unfold sampleKernel
    rw [hex]
    rfl
  exact ⟨e, hk ▸ hex⟩

theorem sampleKernel_started : Started sampleMachine sampleMemory sampleKernel :=
  ⟨sampleFrame, sampleKernel_shell⟩

/-- Replay events on it. -/
def sampleRun (es : List Event) : Option Kernel :=
  (system sampleMachine fun _ => True).runFrom sampleKernel es

theorem sampleRun_reachable {es : List Event} {k : Kernel} (h : sampleRun es = some k) :
    Reachable sampleMachine k :=
  System.Reachable.runFrom
    (System.Reachable.init ⟨sampleMemory, trivial, sampleKernel_started⟩) es h

/-- A check that a replay passes gives a reachable state that passes it. -/
theorem sampleRun_exists (es : List Event) (check : Kernel → Bool)
    (h : (sampleRun es).any check = true) :
    ∃ k, Reachable sampleMachine k ∧ check k = true := by
  rw [Option.any_eq_true] at h
  obtain ⟨k, hrun, hcheck⟩ := h
  exact ⟨k, sampleRun_reachable hrun, hcheck⟩

end Kernel391
