import Kernel391.CommandTheorems
import Kernel391.Drivers
import Kernel391.Lib.Slots

/-!
# `open`, `close` and `read` on the descriptor tables

What each of the three calls does to the descriptors of the processes (`open_func_cases`,
`close_func_cases`, `read_func_cases`), and the runs in which the processes make such calls
in any order. A history notes which file each descriptor was opened on and what has been
read from it since.
-/

namespace Kernel391

open TransitionSystem

/-! ## Looking a name up -/

section
variable {img : Image} {fname : Bytes} {fs fs' : FsGlobals} {d : Dentry}

/-- Entry `i` of the directory, as a lookup finds it. -/
def Image.dentry (img : Image) (i : ℕ) : Dentry :=
  { file_name := img.file_name i, file_type := img.file_type i, inode := img.inode i }

/-- A lookup finds an entry of the directory and does not move the directory cursor. -/
theorem read_dentry_by_name_some (h : read_dentry_by_name img fname fs = some (d, fs')) :
    (∃ i < img.num_dir_entries, d = img.dentry i ∧ dentryMatches img fname i = true) ∧
      fs'.dir_number = fs.dir_number := by
  unfold read_dentry_by_name at h
  split_ifs at h
  rw [Option.map_eq_some_iff] at h
  obtain ⟨i, hfind, heq⟩ := h
  rw [Prod.mk.injEq] at heq
  obtain ⟨rfl, rfl⟩ := heq
  have hmem := List.mem_range.mp (List.mem_of_find?_eq_some hfind)
  have hmatch := List.find?_some hfind
  exact ⟨⟨i, hmem, rfl, hmatch⟩, rfl⟩

/-- It leaves the size of the file behind. -/
theorem read_dentry_by_name_size (h : read_dentry_by_name img fname fs = some (d, fs')) :
    fs'.f_size = img.length d.inode := by
  unfold read_dentry_by_name at h
  split_ifs at h
  rw [Option.map_eq_some_iff] at h
  obtain ⟨i, -, heq⟩ := h
  rw [Prod.mk.injEq] at heq
  obtain ⟨rfl, rfl⟩ := heq
  rfl

end

/-! ## Descriptor tables -/

section
variable {p q : Pid} {fd i : Fd} {k k' : Kernel}

theorem setDesc_fd_table (p q : Pid) (fd i : Fd) (desc : FileDesc) (k : Kernel) :
    ((setDesc p fd desc k).pcb q).fd_table i =
      if q = p ∧ i = fd then desc else (k.pcb q).fd_table i := by
  unfold setDesc Kernel.modPcb
  by_cases hq : q = p
  · subst hq
    dsimp only
    rw [Function.update_self]
    dsimp only
    by_cases hi : i = fd
    · rw [if_pos ⟨rfl, hi⟩, hi, Function.update_self]
    · rw [if_neg fun h => hi h.2, Function.update_of_ne hi]
  · rw [if_neg fun h => hq h.1]
    dsimp only
    rw [Function.update_of_ne hq]

theorem setFlags_eq_setDesc (p : Pid) (fd : Fd) (v : Bool) (k : Kernel) :
    setFlags p fd v k = setDesc p fd { (k.pcb p).fd_table fd with flags := v } k := rfl

/-- The smallest free descriptor from 2 on. -/
def FirstFree (table : Fd → FileDesc) (fd : Fd) : Prop :=
  2 ≤ fd.val ∧ (table fd).flags = false ∧ ∀ j : Fd, 2 ≤ j.val → j < fd → (table j).flags = true

/-- None of the descriptors from 2 on is free. -/
def AllUsed (table : Fd → FileDesc) : Prop := ∀ fd : Fd, 2 ≤ fd.val → (table fd).flags = true

theorem find_desc_eq_some {table : Fd → FileDesc}
    (h : (List.finRange MAX_FILES).find? (fun fd =>
      decide (2 ≤ fd.val) && !(table fd).flags) = some fd) : FirstFree table fd := by
  obtain ⟨hfree, hbefore⟩ := Slots.find?_eq_some_iff.mp h
  simp only [Bool.and_eq_true, decide_eq_true_eq, Bool.not_eq_true'] at hfree
  refine ⟨hfree.1, hfree.2, fun j hj hlt => ?_⟩
  have hused := hbefore j hlt
  rw [decide_eq_true hj, Bool.true_and, Bool.not_eq_false'] at hused
  exact hused

theorem find_desc_eq_none {table : Fd → FileDesc}
    (h : (List.finRange MAX_FILES).find? (fun fd =>
      decide (2 ≤ fd.val) && !(table fd).flags) = none) : AllUsed table := by
  intro fd hfd
  have hused := Slots.find?_eq_none_iff.mp h fd
  rw [decide_eq_true hfd, Bool.true_and, Bool.not_eq_false'] at hused
  exact hused

/-! ## `open` -/

/-- A name `open` takes for the keyboard or the screen. -/
def ConsoleName (name : Bytes) : Prop :=
  strncmp name (literal ['s', 't', 'd', 'i', 'n'] fun _ => 0) 5 = 0 ∨
    strncmp name (literal ['s', 't', 'd', 'o', 'u', 't'] fun _ => 0) 6 = 0

instance (name : Bytes) : Decidable (ConsoleName name) := by
  unfold ConsoleName
  infer_instance

/-- How `open` fills a free descriptor in. For a type it does not know the operations stay
what they were. -/
def openedDesc (d : Dentry) (old : FileDesc) : FileDesc :=
  let desc := { old with flags := true, file_position := 0 }
  if d.file_type = 0 then { desc with inode := 0, op_table_ptr := .rtc }
  else if d.file_type = 1 then { desc with inode := 0, op_table_ptr := .dir }
  else if d.file_type = 2 then { desc with inode := d.inode, op_table_ptr := .file }
  else desc

/-- `open` finds an entry and a free descriptor for it. -/
structure Opens (m : Machine) (filename : Option Bytes) (k : Kernel) (d : Dentry) (fd : Fd) :
    Prop where
  named : ∃ name fs, filename = some name ∧ ¬ ConsoleName name ∧
    read_dentry_by_name m.img name k.fs = some (d, fs)
  free : FirstFree (k.pcb k.cur_pid).fd_table fd

/-- Every way `open` ends: it fails, it renews a console descriptor, or it fills in the
first free descriptor, also for an entry of unknown type. Opening the RTC sets its rate. -/
theorem open_func_cases {m : Machine} {filename : Option Bytes} {r : ℤ}
    (h : open_func m filename k = (k', r)) :
    ((r = -1 ∧ k'.pcb = k.pcb ∧ k'.fs.dir_number = k.fs.dir_number ∧ k'.term = k.term) ∧
      ∀ name, filename = some name → ¬ ConsoleName name ∧
        (read_dentry_by_name m.img name k.fs = none ∨ AllUsed (k.pcb k.cur_pid).fd_table)) ∨
    ((∃ name, filename = some name ∧ ConsoleName name) ∧ r = 0 ∧
      k'.fs.dir_number = k.fs.dir_number ∧ k'.term = k.term ∧
      ∃ (fd : Fd) (table : OpTable), fd.val < 2 ∧
        k'.pcb = (setDesc k.cur_pid fd
          { (k.pcb k.cur_pid).fd_table fd with op_table_ptr := table, flags := true } k).pcb) ∨
    ∃ d fd, Opens m filename k d fd ∧ k'.fs.dir_number = k.fs.dir_number ∧
      k'.pcb = (setDesc k.cur_pid fd (openedDesc d ((k.pcb k.cur_pid).fd_table fd)) k).pcb ∧
      (k'.term = if d.file_type = 0
        then (k.modTerm k.running_term fun i => { i with rtc_freq := MIN_RTC_FREQ }).term
        else k.term) ∧
      r = if d.file_type ≤ 2 then (fd.val : ℤ) else -1 := by
  unfold open_func at h
  cases filename with
  | none =>
    rw [Prod.mk.injEq] at h
    obtain ⟨rfl, rfl⟩ := h
    exact Or.inl ⟨⟨rfl, rfl, rfl, rfl⟩, fun name hname => by cases hname⟩
  | some name =>
    dsimp only at h
    by_cases hin : strncmp name (literal ['s', 't', 'd', 'i', 'n'] fun _ => 0) 5 = 0
    · rw [if_pos hin, Prod.mk.injEq] at h
      obtain ⟨rfl, rfl⟩ := h
      exact Or.inr (Or.inl ⟨⟨name, rfl, Or.inl hin⟩, rfl, rfl, rfl, 0, .stdin, by decide, rfl⟩)
    rw [if_neg hin] at h
    by_cases hout : strncmp name (literal ['s', 't', 'd', 'o', 'u', 't'] fun _ => 0) 6 = 0
    · rw [if_pos hout, Prod.mk.injEq] at h
      obtain ⟨rfl, rfl⟩ := h
      exact Or.inr (Or.inl ⟨⟨name, rfl, Or.inr hout⟩, rfl, rfl, rfl, 1, .stdout, by decide, rfl⟩)
    rw [if_neg hout] at h
    have hname : ¬ ConsoleName name := not_or.mpr ⟨hin, hout⟩
    cases hlookup : read_dentry_by_name m.img name k.fs with
    | none =>
      rw [hlookup, Prod.mk.injEq] at h
      obtain ⟨rfl, rfl⟩ := h
      refine Or.inl ⟨⟨rfl, rfl, rfl, rfl⟩, fun name' heq => ?_⟩
      cases heq
      exact ⟨hname, Or.inl hlookup⟩
    | some found =>
      obtain ⟨d, fs⟩ := found
      have hdir := (read_dentry_by_name_some hlookup).2
      rw [hlookup] at h
      dsimp only at h
      cases hfind : (List.finRange MAX_FILES).find? fun fd =>
          decide (2 ≤ fd.val) && !((k.pcb k.cur_pid).fd_table fd).flags with
      | none =>
        rw [hfind, Prod.mk.injEq] at h
        obtain ⟨rfl, rfl⟩ := h
        refine Or.inl ⟨⟨rfl, rfl, hdir, rfl⟩, fun name' heq => ?_⟩
        cases heq
        exact ⟨hname, Or.inr (find_desc_eq_none hfind)⟩
      | some fd =>
        rw [hfind] at h
        have hopens : Opens m (some name) k d fd :=
          ⟨⟨name, fs, rfl, hname, hlookup⟩, find_desc_eq_some hfind⟩
        refine Or.inr (Or.inr ⟨d, fd, hopens, ?_⟩)
        unfold openedDesc
        dsimp only at h ⊢
        by_cases h0 : d.file_type = 0
        · rw [if_pos h0, Prod.mk.injEq] at h
          obtain ⟨rfl, rfl⟩ := h
          rw [if_pos h0, if_pos h0, if_pos (by omega)]
          exact ⟨hdir, rfl, rfl, rfl⟩
        rw [if_neg h0] at h
        rw [if_neg h0, if_neg h0]
        by_cases h1 : d.file_type = 1
        · rw [if_pos h1, Prod.mk.injEq] at h
          obtain ⟨rfl, rfl⟩ := h
          rw [if_pos h1, if_pos (by omega)]
          exact ⟨hdir, rfl, rfl, rfl⟩
        rw [if_neg h1] at h ⊢
        by_cases h2 : d.file_type = 2
        · rw [if_pos h2, Prod.mk.injEq] at h
          obtain ⟨rfl, rfl⟩ := h
          rw [if_pos h2, if_pos (by omega)]
          exact ⟨hdir, rfl, rfl, rfl⟩
        · rw [if_neg h2, Prod.mk.injEq] at h
          obtain ⟨rfl, rfl⟩ := h
          rw [if_neg h2, if_neg (by omega)]
          exact ⟨hdir, rfl, rfl, rfl⟩

theorem Opens.unique {m : Machine} {filename : Option Bytes} {d d' : Dentry} {i j : Fd}
    (h : Opens m filename k d i) (h' : Opens m filename k d' j) : d = d' ∧ i = j := by
  obtain ⟨⟨name, fs, rfl, -, hfound⟩, hi, hfree, hbefore⟩ := h
  obtain ⟨⟨name', fs', heq, -, hfound'⟩, hj, hfree', hbefore'⟩ := h'
  cases heq
  rw [hfound, Option.some.injEq, Prod.mk.injEq] at hfound'
  refine ⟨hfound'.1, ?_⟩
  rcases lt_trichotomy i j with hlt | heq | hlt
  · rw [hbefore' i hi hlt] at hfree
    cases hfree
  · exact heq
  · rw [hbefore j hj hlt] at hfree'
    cases hfree'

/-- What it then does. -/
theorem open_func_opens {m : Machine} {filename : Option Bytes} {d : Dentry} {r : ℤ}
    (h : Opens m filename k d fd) (hopen : open_func m filename k = (k', r)) :
    k'.pcb = (setDesc k.cur_pid fd (openedDesc d ((k.pcb k.cur_pid).fd_table fd)) k).pcb ∧
      r = if d.file_type ≤ 2 then (fd.val : ℤ) else -1 := by
  obtain ⟨⟨name, fs, rfl, hname, hlookup⟩, hge, hfree, -⟩ := id h
  rcases open_func_cases hopen with ⟨-, hnone⟩ | ⟨⟨name', heq, hconsole⟩, -⟩ |
    ⟨d', i, h', -, hpcb, -, hr⟩
  · rcases (hnone name rfl).2 with hnot | hused
    · rw [hlookup] at hnot
      cases hnot
    · rw [hused fd hge] at hfree
      cases hfree
  · cases heq
    exact absurd hconsole hname
  · obtain ⟨rfl, rfl⟩ := h.unique h'
    exact ⟨hpcb, hr⟩

/-! ## `read` -/

/-- Every way `read` ends: it fails early, or the driver of a descriptor in use is called. -/
theorem read_func_cases {m : Machine} {fd nbytes : ℤ} {buf : Word} {r : ReadResult}
    (h : read_func m fd buf nbytes k = some (k', r)) :
    (k' = k ∧ r = .failed) ∨ ∃ i : Fd, fd = i.val ∧ buf ≠ 0 ∧
      ((k.pcb k.cur_pid).fd_table i).flags = true ∧
      ((k.pcb k.cur_pid).fd_table i).op_table_ptr.read m i nbytes k = some (k', r) := by
  unfold read_func at h
  by_cases hfd : fd < 0 ∨ fd > MAX_FILES - 1 ∨ buf = 0
  · rw [dif_pos hfd, Option.some.injEq, Prod.mk.injEq] at h
    exact Or.inl ⟨h.1.symm, h.2.symm⟩
  · rw [dif_neg hfd] at h
    dsimp only at h
    split_ifs at h with hflag
    · rw [Option.some.injEq, Prod.mk.injEq] at h
      exact Or.inl ⟨h.1.symm, h.2.symm⟩
    · refine Or.inr ⟨⟨fd.toNat, ?_⟩, ?_, ?_, ?_, h⟩
      · simp only [MAX_FILES] at hfd ⊢
        omega
      · show fd = (fd.toNat : ℤ)
        omega
      · exact fun hbuf => hfd (Or.inr (Or.inr hbuf))
      · simpa using hflag

/-- A descriptor in use is read through its driver. -/
theorem read_func_eq {m : Machine} {i : Fd} {nbytes : ℤ} {buf : Word} (hbuf : buf ≠ 0)
    (hflag : ((k.pcb k.cur_pid).fd_table i).flags = true) :
    read_func m i.val buf nbytes k =
      ((k.pcb k.cur_pid).fd_table i).op_table_ptr.read m i nbytes k := by
  have hfd : ¬ ((i.val : ℤ) < 0 ∨ (i.val : ℤ) > MAX_FILES - 1 ∨ buf = 0) := by
    have hlt := i.isLt
    simp only [MAX_FILES] at hlt ⊢
    simp only [hbuf, or_false]
    omega
  have hi : (⟨(i.val : ℤ).toNat, by simp⟩ : Fd) = i := by simp
  unfold read_func
  rw [dif_neg hfd]
  simp only [hi, hflag]
  rfl

/-- The driver that answers a read. -/
theorem OpTable.read_cases {m : Machine} {table : OpTable} {nbytes : ℤ} {r : ReadResult}
    (h : table.read m fd nbytes k = some (k', r)) :
    (table = .rtc ∧ (k.term k.running_term).rtc_freq ≠ 0 ∧ k' = k ∧
      r = { ret := 0, stored := [] }) ∨
    (table = .dir ∧ ∃ fs, dir_read m.img k.fs = some (fs, r) ∧ k' = { k with fs := fs }) ∨
    (table = .file ∧ file_read m fd nbytes k = (k', r)) ∨
    (table = .stdin ∧ terminal_read nbytes k = some (k', r)) ∨
    (table = .stdout ∧ k' = k ∧ r = .failed) := by
  cases table with
  | null => cases h
  | rtc =>
    have hrtc : rtc_read k = some (k', r) := h
    unfold rtc_read at hrtc
    split_ifs at hrtc with hfreq
    rw [Option.some.injEq, Prod.mk.injEq] at hrtc
    exact Or.inl ⟨rfl, hfreq, hrtc.1.symm, hrtc.2.symm⟩
  | dir =>
    obtain ⟨⟨fs, r'⟩, hdir, heq⟩ := Option.map_eq_some_iff.mp h
    rw [Prod.mk.injEq] at heq
    obtain ⟨hk, rfl⟩ := heq
    exact Or.inr (Or.inl ⟨rfl, fs, hdir, hk.symm⟩)
  | file =>
    have hfile : some (file_read m fd nbytes k) = some (k', r) := h
    rw [Option.some.injEq] at hfile
    exact Or.inr (Or.inr (Or.inl ⟨rfl, hfile⟩))
  | stdin => exact Or.inr (Or.inr (Or.inr (Or.inl ⟨rfl, h⟩)))
  | stdout =>
    have hout : some (k, ReadResult.failed) = some (k', r) := h
    rw [Option.some.injEq, Prod.mk.injEq] at hout
    exact Or.inr (Or.inr (Or.inr (Or.inr ⟨rfl, hout.1.symm, hout.2.symm⟩)))

/-- What `terminal_read` does, once there is a line. -/
theorem terminal_read_eq {nbytes : ℤ} {r : ReadResult}
    (h : terminal_read nbytes k = some (k', r)) :
    (k.console.term k.running_term).has_enter = true ∧
      (∃ console, k' = { k with console := console }) ∧
      r.stored.length = min nbytes.toNat k.console.length_key ∧
      r.ret = toInt32 (if k.console.length_key < toUnsigned nbytes then k.console.length_key
        else nbytes.toNat) := by
  unfold terminal_read at h
  dsimp only at h
  by_cases hwait : (k.console.term k.running_term).has_enter = false
  · rw [if_pos hwait] at h
    cases h
  · rw [if_neg hwait, Option.some.injEq, Prod.mk.injEq] at h
    obtain ⟨hk, hr⟩ := h
    have hline : (k.console.term k.running_term).has_enter = true := by simpa using hwait
    refine ⟨hline, ⟨_, hk.symm⟩, ?_, ?_⟩
    · rw [← hr, List.length_map, List.length_range, Console.modTerm_length_key]
    · rw [← hr, Console.modTerm_length_key]

/-- A driver moves at most the position of the descriptor it is called for. -/
theorem OpTable.read_desc {m : Machine} {table : OpTable} {nbytes : ℤ} {r : ReadResult}
    (h : table.read m fd nbytes k = some (k', r)) (q : Pid) (i : Fd) :
    (∃ pos, (k'.pcb q).fd_table i = { (k.pcb q).fd_table i with file_position := pos }) ∧
      (¬ (q = k.cur_pid ∧ i = fd ∧ table = .file) →
        (k'.pcb q).fd_table i = (k.pcb q).fd_table i) := by
  -- all but `file_read` leave the PCBs alone
  have hsame : k'.pcb = k.pcb →
      (∃ pos, (k'.pcb q).fd_table i = { (k.pcb q).fd_table i with file_position := pos }) ∧
        (¬ (q = k.cur_pid ∧ i = fd ∧ table = .file) →
          (k'.pcb q).fd_table i = (k.pcb q).fd_table i) := by
    intro hpcb
    rw [hpcb]
    exact ⟨⟨_, rfl⟩, fun _ => rfl⟩
  rcases OpTable.read_cases h with ⟨-, -, hk, -⟩ | ⟨-, fs, -, hk⟩ | ⟨rfl, hfile⟩ | ⟨-, hin⟩ |
    ⟨-, hk, -⟩
  · exact hsame (by rw [hk])
  · exact hsame (by rw [hk])
  · have hk : k' = (file_read m fd nbytes k).1 := by rw [hfile]
    rw [hk]
    unfold file_read
    dsimp only
    rw [setDesc_fd_table]
    by_cases hqi : q = k.cur_pid ∧ i = fd
    · rw [if_pos hqi, hqi.1, hqi.2]
      exact ⟨⟨_, rfl⟩, fun hne => absurd ⟨rfl, rfl, rfl⟩ hne⟩
    · rw [if_neg hqi]
      exact ⟨⟨_, rfl⟩, fun _ => rfl⟩
  · obtain ⟨-, ⟨console, hk⟩, -⟩ := terminal_read_eq hin
    exact hsame (by rw [hk])
  · exact hsame (by rw [hk])

/-- Only the directory's driver uses the globals of the file system. -/
theorem OpTable.read_fs {m : Machine} {table : OpTable} {nbytes : ℤ} {r : ReadResult}
    (h : table.read m fd nbytes k = some (k', r)) (hdir : table ≠ .dir) : k'.fs = k.fs := by
  rcases OpTable.read_cases h with ⟨-, -, hk, -⟩ | ⟨htable, -⟩ | ⟨-, hfile⟩ | ⟨-, hin⟩ |
    ⟨-, hk, -⟩
  · rw [hk]
  · exact absurd htable hdir
  · have hk : k' = (file_read m fd nbytes k).1 := by rw [hfile]
    rw [hk]
    rfl
  · obtain ⟨-, ⟨console, hk⟩, -⟩ := terminal_read_eq hin
    rw [hk]
  · rw [hk]

end

/-! ## Runs -/

inductive FileCall where
  | open_file (filename : Option Bytes)
  | close (fd : ℤ)
  | read (fd : ℤ) (buf : Word) (nbytes : ℤ)

/-- Reads of a number of bytes, into a buffer. -/
def FileCall.Buffered : FileCall → Prop
  | .read _ buf nbytes => buf ≠ 0 ∧ 0 ≤ nbytes ∧ nbytes < 2 ^ 31
  | _ => True

instance (c : FileCall) : Decidable c.Buffered := by
  cases c <;> unfold FileCall.Buffered <;> infer_instance

/-- A call of a process. Anything may have been typed and displayed since the last one. -/
structure CallEvent where
  pid : Pid
  running_term : TermId
  console : Console
  call : FileCall

/-- The processor has gone to the process that makes the call. -/
def CallEvent.switch (e : CallEvent) (k : Kernel) : Kernel :=
  { k with cur_pid := e.pid, running_term := e.running_term, console := e.console }

def FileCall.perform (m : Machine) (k : Kernel) : FileCall → Option (Kernel × ReadResult)
  | .open_file filename =>
    some ((open_func m filename k).1, { ret := (open_func m filename k).2, stored := [] })
  | .close fd => (close_func fd k).map fun (k, r) => (k, { ret := r, stored := [] })
  | .read fd buf nbytes => read_func m fd buf nbytes k

/-- A read: what it asked for and what it got. -/
structure FileRead where
  nbytes : ℤ
  result : ReadResult

/-- What a descriptor was opened on, and what has been read from it since. -/
structure OpenFile where
  entry : Dentry
  reads : List FileRead

/-- The descriptors the processes got from `open` for directory entries and have not
closed. -/
abbrev OpenFiles := Pid → Fd → Option OpenFile

def OpenFiles.set (h : OpenFiles) (p : Pid) (fd : ℤ) (o : Option OpenFile) : OpenFiles :=
  fun q i => if q = p ∧ (i.val : ℤ) = fd then o else h q i

/-- The entry an `open` call finds. -/
def foundEntry (m : Machine) (filename : Option Bytes) (k : Kernel) : Option Dentry :=
  filename.bind fun name => (read_dentry_by_name m.img name k.fs).map Prod.fst

theorem Opens.foundEntry {m : Machine} {filename : Option Bytes} {k : Kernel} {d : Dentry}
    {fd : Fd} (h : Opens m filename k d fd) : foundEntry m filename k = some d := by
  obtain ⟨⟨name, fs, rfl, -, hlookup⟩, -⟩ := h
  unfold Kernel391.foundEntry
  rw [Option.bind_some, hlookup]
  rfl

def OpenFiles.note (m : Machine) (k : Kernel) (e : CallEvent) (h : OpenFiles) : OpenFiles :=
  match e.call with
  | .open_file filename =>
    let r := (open_func m filename (e.switch k)).2
    if r < 2 then h
    else h.set e.pid r ((foundEntry m filename (e.switch k)).map fun d =>
      { entry := d, reads := [] })
  | .close fd =>
    if (close_func fd (e.switch k)).any (fun x => decide (x.2 = 0)) then h.set e.pid fd none
    else h
  | .read fd buf nbytes =>
    match read_func m fd buf nbytes (e.switch k) with
    | none => h
    | some (_, r) => fun q i =>
      if q = e.pid ∧ (i.val : ℤ) = fd then
        (h q i).map fun o => { o with reads := o.reads ++ [{ nbytes := nbytes, result := r }] }
      else h q i

/-- Runs of such calls, from a kernel that satisfies `B`. -/
def fileCalls (m : Machine) (B : Kernel → Prop) : System (Kernel × OpenFiles) CallEvent :=
  System.withHistory
    { init := B, step := fun k e => (e.call.perform m (e.switch k)).map Prod.fst }
    (fun _ h => ∀ p fd, h p fd = none) (OpenFiles.note m)

theorem fileCalls_step {m : Machine} {B : Kernel → Prop} {s s' : Kernel × OpenFiles}
    {e : CallEvent} (hs : (fileCalls m B).step s e = some s') :
    (∃ r, e.call.perform m (e.switch s.1) = some (s'.1, r)) ∧ s'.2 = s.2.note m s.1 e := by
  obtain ⟨hstep, hnote⟩ := System.withHistory_step_iff.mp hs
  obtain ⟨⟨k', r⟩, hperform, hk⟩ := Option.map_eq_some_iff.mp hstep
  have hk' : k' = s'.1 := hk
  exact ⟨⟨r, hk' ▸ hperform⟩, hnote⟩

/-! ## Descriptors that the history follows -/

/-- A descriptor opened on an entry, whose position may have moved since. -/
structure Tracked (m : Machine) (fd : Fd) (desc : FileDesc) (d : Dentry) : Prop where
  two_le : 2 ≤ fd.val
  entry : ∃ i < m.img.num_dir_entries, d = m.img.dentry i
  known : d.file_type ≤ 2
  opened : { desc with file_position := 0 } = openedDesc d desc

/-- All that the history follows are. -/
def AllTracked (m : Machine) (s : Kernel × OpenFiles) : Prop :=
  ∀ p fd o, s.2 p fd = some o → Tracked m fd ((s.1.pcb p).fd_table fd) o.entry

section
variable {m : Machine} {fd : Fd} {desc : FileDesc} {d : Dentry}

theorem openedDesc_flags (d : Dentry) (old : FileDesc) : (openedDesc d old).flags = true := by
  unfold openedDesc
  dsimp only
  split_ifs <;> rfl

theorem openedDesc_start (d : Dentry) (old : FileDesc) :
    { openedDesc d old with file_position := 0 } = openedDesc d old := by
  unfold openedDesc
  dsimp only
  split_ifs <;> rfl

/-- For a known type nothing is left of the old descriptor. -/
theorem openedDesc_known (h : d.file_type ≤ 2) (old old' : FileDesc) :
    openedDesc d old = openedDesc d old' := by
  unfold openedDesc
  dsimp only
  split_ifs
  · rfl
  · rfl
  · rfl
  · omega

theorem openedDesc_dir (h : d.file_type = 1) (old : FileDesc) :
    (openedDesc d old).op_table_ptr = .dir := by
  unfold openedDesc
  dsimp only
  rw [if_neg (by omega), if_pos h]

theorem openedDesc_file (h : d.file_type = 2) (old : FileDesc) :
    (openedDesc d old).op_table_ptr = .file ∧ (openedDesc d old).inode = d.inode := by
  unfold openedDesc
  dsimp only
  rw [if_neg (by omega), if_neg (by omega), if_pos h]
  exact ⟨rfl, rfl⟩

theorem openedDesc_close (h : d.file_type ≤ 2) (old : FileDesc) :
    (openedDesc d old).op_table_ptr.close = some 0 := by
  unfold openedDesc
  dsimp only
  split_ifs
  · rfl
  · rfl
  · rfl
  · omega

namespace Tracked

theorem flags (h : Tracked m fd desc d) : desc.flags = true :=
  (congrArg FileDesc.flags h.opened).trans (openedDesc_flags d desc)

theorem op_table_ptr (h : Tracked m fd desc d) :
    desc.op_table_ptr = (openedDesc d desc).op_table_ptr := by
  have hopened := congrArg FileDesc.op_table_ptr h.opened
  exact hopened

theorem inode (h : Tracked m fd desc d) : desc.inode = (openedDesc d desc).inode := by
  have hopened := congrArg FileDesc.inode h.opened
  exact hopened

/-- Its position moves. -/
theorem move (h : Tracked m fd desc d) (pos : ℕ) :
    Tracked m fd { desc with file_position := pos } d :=
  ⟨h.two_le, h.entry, h.known, h.opened.trans (openedDesc_known h.known _ _)⟩

/-- `close` releases it. -/
theorem close_func {p : Pid} {k k' : Kernel} {r : ℤ} (hcur : p = k.cur_pid)
    (h : Tracked m fd ((k.pcb p).fd_table fd) d)
    (hclose : Kernel391.close_func fd.val k = some (k', r)) : r = 0 := by
  have hflag := h.flags
  have htable := h.op_table_ptr.symm ▸ openedDesc_close h.known ((k.pcb p).fd_table fd)
  rw [hcur] at hflag htable
  rw [close_func_eq h.two_le, if_neg (by rw [hflag]; decide), htable, Option.map_some,
    Option.some.injEq, Prod.mk.injEq] at hclose
  exact hclose.2.symm

end Tracked

end

/-! ## What a call changes -/

/-- A call on descriptor `fd` of its process. -/
def FileCall.On (fd : Fd) : FileCall → Prop
  | .open_file _ => False
  | .close i => i = fd.val
  | .read i _ _ => i = fd.val

/-- A call on descriptor `fd` of process `p`, or an `open` that takes it. -/
def Touches (m : Machine) (k : Kernel) (e : CallEvent) (p : Pid) (fd : Fd) : Prop :=
  e.pid = p ∧ (e.call.On fd ∨
    ∃ filename d, e.call = .open_file filename ∧ Opens m filename (e.switch k) d fd)

section
variable {m : Machine} {B : Kernel → Prop} {s s' : Kernel × OpenFiles} {e : CallEvent} {p : Pid}
  {fd : Fd}

theorem perform_open {filename : Option Bytes} {r : ReadResult}
    (hcall : e.call = .open_file filename)
    (h : e.call.perform m (e.switch s.1) = some (s'.1, r)) :
    ∃ v, open_func m filename (e.switch s.1) = (s'.1, v) := by
  rw [hcall, FileCall.perform, Option.some.injEq, Prod.mk.injEq] at h
  exact ⟨_, Prod.ext h.1 rfl⟩

theorem perform_close {i : ℤ} {r : ReadResult} (hcall : e.call = .close i)
    (h : e.call.perform m (e.switch s.1) = some (s'.1, r)) :
    ∃ v, close_func i (e.switch s.1) = some (s'.1, v) := by
  rw [hcall] at h
  obtain ⟨⟨k', v⟩, hclose, heq⟩ := Option.map_eq_some_iff.mp h
  rw [Prod.mk.injEq] at heq
  exact ⟨v, heq.1 ▸ hclose⟩

theorem perform_read {i nbytes : ℤ} {buf : Word} {r : ReadResult}
    (hcall : e.call = .read i buf nbytes)
    (h : e.call.perform m (e.switch s.1) = some (s'.1, r)) :
    read_func m i buf nbytes (e.switch s.1) = some (s'.1, r) := by
  rw [hcall] at h
  exact h

/-- The history of other descriptors stays. -/
theorem history_of_not_touches (hs : (fileCalls m B).step s e = some s')
    (hoff : ¬ Touches m s.1 e p fd) : s'.2 p fd = s.2 p fd := by
  obtain ⟨⟨r, hperform⟩, hnote⟩ := fileCalls_step hs
  rw [hnote]
  unfold OpenFiles.note
  cases hcall : e.call with
  | open_file filename =>
    obtain ⟨v, hopen⟩ := perform_open hcall hperform
    dsimp only
    rw [hopen]
    dsimp only
    rcases open_func_cases hopen with ⟨⟨hv, -⟩, -⟩ | ⟨-, hv, -⟩ | ⟨d, i, hopens, -, -, -, hv⟩
    · rw [hv, if_pos (by decide)]
    · rw [hv, if_pos (by decide)]
    · have hge := hopens.free.1
      split_ifs at hv with hknown
      · rw [hv, if_neg (by omega), OpenFiles.set, if_neg]
        rintro ⟨hp, hi⟩
        have hfd : fd = i := Fin.ext (by exact_mod_cast hi)
        exact hoff ⟨hp.symm, Or.inr ⟨filename, d, hcall, hfd ▸ hopens⟩⟩
      · rw [hv, if_pos (by decide)]
  | close i =>
    have hthis : ¬ (p = e.pid ∧ (fd.val : ℤ) = i) := by
      rintro ⟨hp, hi⟩
      refine hoff ⟨hp.symm, Or.inl ?_⟩
      rw [hcall]
      exact hi.symm
    dsimp only
    split_ifs
    · rw [OpenFiles.set, if_neg hthis]
    · rfl
  | read i buf nbytes =>
    have hthis : ¬ (p = e.pid ∧ (fd.val : ℤ) = i) := by
      rintro ⟨hp, hi⟩
      refine hoff ⟨hp.symm, Or.inl ?_⟩
      rw [hcall]
      exact hi.symm
    dsimp only
    rw [perform_read hcall hperform]
    exact if_neg hthis

/-- Other descriptors from 2 on stay as they are. -/
theorem desc_of_not_touches (hs : (fileCalls m B).step s e = some s')
    (hoff : ¬ Touches m s.1 e p fd) (hfd : 2 ≤ fd.val) :
    (s'.1.pcb p).fd_table fd = (s.1.pcb p).fd_table fd := by
  obtain ⟨⟨r, hperform⟩, -⟩ := fileCalls_step hs
  cases hcall : e.call with
  | open_file filename =>
    obtain ⟨v, hopen⟩ := perform_open hcall hperform
    rcases open_func_cases hopen with ⟨⟨-, hpcb, -⟩, -⟩ | ⟨-, -, -, -, i, table, hi, hpcb⟩ |
      ⟨d, i, hopens, -, hpcb, -⟩
    · rw [hpcb]
      rfl
    · rw [hpcb, setDesc_fd_table, if_neg]
      · rfl
      · rintro ⟨-, rfl⟩
        omega
    · rw [hpcb, setDesc_fd_table, if_neg]
      · rfl
      · rintro ⟨hp, rfl⟩
        exact hoff ⟨hp.symm, Or.inr ⟨filename, d, hcall, hopens⟩⟩
  | close i =>
    obtain ⟨v, hclose⟩ := perform_close hcall hperform
    rcases close_func_cases hclose with ⟨hk, -⟩ | ⟨j, rfl, -, -, hk⟩
    · rw [hk]
      rfl
    · rw [hk, setFlags_eq_setDesc, setDesc_fd_table, if_neg]
      · rfl
      · rintro ⟨hp, rfl⟩
        refine hoff ⟨hp.symm, Or.inl ?_⟩
        rw [hcall]
        rfl
  | read i buf nbytes =>
    rcases read_func_cases (perform_read hcall hperform) with ⟨hk, -⟩ | ⟨j, rfl, -, -, hdriver⟩
    · rw [hk]
      rfl
    · refine (OpTable.read_desc hdriver p fd).2 ?_
      rintro ⟨hp, rfl, -⟩
      refine hoff ⟨hp.symm, Or.inl ?_⟩
      rw [hcall]
      rfl

end

/-- A read adds to the history of its descriptor. -/
theorem history_of_read {m : Machine} {B : Kernel → Prop} {s s' : Kernel × OpenFiles}
    {e : CallEvent} {fd : Fd} {buf : Word} {nbytes : ℤ} {r : ReadResult}
    (hs : (fileCalls m B).step s e = some s') (hcall : e.call = .read fd.val buf nbytes)
    (hread : read_func m fd.val buf nbytes (e.switch s.1) = some (s'.1, r)) :
    s'.2 e.pid fd = (s.2 e.pid fd).map fun o =>
      { o with reads := o.reads ++ [{ nbytes := nbytes, result := r }] } := by
  rw [(fileCalls_step hs).2]
  unfold OpenFiles.note
  rw [hcall]
  dsimp only
  rw [hread]
  exact if_pos ⟨rfl, rfl⟩

/-- And to no other. -/
theorem history_of_read_other {m : Machine} {B : Kernel → Prop} {s s' : Kernel × OpenFiles}
    {e : CallEvent} {p : Pid} {fd i : Fd} {buf : Word} {nbytes : ℤ}
    (hs : (fileCalls m B).step s e = some s') (hcall : e.call = .read i.val buf nbytes)
    (hne : ¬ (p = e.pid ∧ fd = i)) : s'.2 p fd = s.2 p fd := by
  refine history_of_not_touches hs ?_
  rintro ⟨hp, hon | ⟨filename, d, hopen, -⟩⟩
  · rw [hcall] at hon
    have hfd : (i.val : ℤ) = fd.val := hon
    exact hne ⟨hp.symm, Fin.ext (by exact_mod_cast hfd.symm)⟩
  · rw [hcall] at hopen
    cases hopen

/-- What a step does with a descriptor that the history follows afterwards. -/
inductive Follow (m : Machine) (s s' : Kernel × OpenFiles) (e : CallEvent) (p : Pid) (fd : Fd)
    (o' : OpenFile) : Prop
  /-- Nothing. -/
  | kept : s.2 p fd = some o' → (s'.1.pcb p).fd_table fd = (s.1.pcb p).fd_table fd →
      Follow m s s' e p fd o'
  /-- It has just been opened. -/
  | opened {filename : Option Bytes} {d : Dentry} : e.pid = p → e.call = .open_file filename →
      Opens m filename (e.switch s.1) d fd → d.file_type ≤ 2 → o' = { entry := d, reads := [] } →
      (s'.1.pcb p).fd_table fd = openedDesc d ((s.1.pcb p).fd_table fd) → Follow m s s' e p fd o'
  /-- It has been read. -/
  | read {o : OpenFile} {buf : Word} {nbytes : ℤ} {r : ReadResult} : e.pid = p →
      e.call = .read fd.val buf nbytes → s.2 p fd = some o →
      read_func m fd.val buf nbytes (e.switch s.1) = some (s'.1, r) →
      o' = { o with reads := o.reads ++ [{ nbytes := nbytes, result := r }] } →
      Follow m s s' e p fd o'

section
variable {m : Machine} {B : Kernel → Prop} {s s' : Kernel × OpenFiles} {e : CallEvent} {p : Pid}
  {fd : Fd}

/-- A descriptor that `open` takes was free, and not followed. -/
theorem AllTracked.not_opens (hok : AllTracked m s) {o : OpenFile} (ho : s.2 p fd = some o)
    (hp : e.pid = p) {filename : Option Bytes} {d : Dentry}
    (hopens : Opens m filename (e.switch s.1) d fd) : False := by
  subst hp
  have hused := (hok _ fd o ho).flags
  have hfree : ((s.1.pcb e.pid).fd_table fd).flags = false := hopens.free.2.1
  rw [hfree] at hused
  cases hused

theorem follow_of_step (hok : AllTracked m s) (hs : (fileCalls m B).step s e = some s')
    {o' : OpenFile} (ho : s'.2 p fd = some o') : Follow m s s' e p fd o' := by
  by_cases htouch : Touches m s.1 e p fd
  · obtain ⟨rfl, hon | ⟨filename, d, hcall, hopens⟩⟩ := htouch
    · obtain ⟨⟨r, hperform⟩, hnote⟩ := fileCalls_step hs
      rw [hnote] at ho
      unfold OpenFiles.note at ho
      cases hcall : e.call with
      | open_file filename =>
        rw [hcall] at hon
        cases hon
      | close i =>
        obtain ⟨v, hclose⟩ := perform_close hcall hperform
        rw [hcall] at hon ho
        obtain rfl : i = fd.val := hon
        dsimp only at ho
        rw [hclose, Option.any_some] at ho
        dsimp only at ho
        -- a successful `close` ends the history, and no other one is possible here
        split_ifs at ho with hv
        · rw [OpenFiles.set, if_pos ⟨rfl, rfl⟩] at ho
          cases ho
        · have hzero := (hok e.pid fd o' ho).close_func rfl hclose
          exact absurd (decide_eq_true hzero) hv
      | read i buf nbytes =>
        have hread := perform_read hcall hperform
        rw [hcall] at hon ho
        obtain rfl : i = fd.val := hon
        dsimp only at ho
        rw [hread] at ho
        dsimp only at ho
        rw [if_pos ⟨rfl, rfl⟩, Option.map_eq_some_iff] at ho
        obtain ⟨o, ho, heq⟩ := ho
        exact Follow.read rfl hcall ho hread heq.symm
    · obtain ⟨⟨r, hperform⟩, hnote⟩ := fileCalls_step hs
      obtain ⟨v, hopen⟩ := perform_open hcall hperform
      rw [hnote] at ho
      unfold OpenFiles.note at ho
      rw [hcall] at ho
      dsimp only at ho
      rw [hopen] at ho
      dsimp only at ho
      obtain ⟨hpcb, hv⟩ := open_func_opens hopens hopen
      have hge := hopens.free.1
      split_ifs at hv with hknown
      · rw [hv, if_neg (by omega), OpenFiles.set, if_pos ⟨rfl, rfl⟩, hopens.foundEntry,
          Option.map_some, Option.some.injEq] at ho
        refine Follow.opened rfl hcall hopens hknown ho.symm ?_
        rw [hpcb, setDesc_fd_table, if_pos ⟨rfl, rfl⟩]
        rfl
      · rw [hv, if_pos (by decide)] at ho
        exact (hok.not_opens ho rfl hopens).elim
  · have hold := (history_of_not_touches hs htouch).symm.trans ho
    exact Follow.kept hold (desc_of_not_touches hs htouch (hok p fd o' hold).two_le)

/-- Calls of other processes and on other descriptors leave a followed descriptor alone. -/
theorem AllTracked.untouched (hok : AllTracked m s) (hs : (fileCalls m B).step s e = some s')
    {o : OpenFile} (ho : s.2 p fd = some o) (hoff : ¬ (e.pid = p ∧ e.call.On fd)) :
    s'.2 p fd = some o ∧ (s'.1.pcb p).fd_table fd = (s.1.pcb p).fd_table fd := by
  have htouch : ¬ Touches m s.1 e p fd := by
    rintro ⟨hp, hon | ⟨filename, d, -, hopens⟩⟩
    · exact hoff ⟨hp, hon⟩
    · exact hok.not_opens ho hp hopens
  exact ⟨(history_of_not_touches hs htouch).trans ho,
    desc_of_not_touches hs htouch (hok p fd o ho).two_le⟩

end

theorem AllTracked.step {m : Machine} {B : Kernel → Prop} {s s' : Kernel × OpenFiles}
    {e : CallEvent} (hok : AllTracked m s) (hs : (fileCalls m B).step s e = some s') :
    AllTracked m s' := by
  intro p fd o' ho
  cases follow_of_step hok hs ho with
  | kept hbefore hdesc =>
    rw [hdesc]
    exact hok p fd o' hbefore
  | opened hp hcall hopens hknown ho' hdesc =>
    obtain ⟨⟨name, fs, -, -, hlookup⟩, hge, -⟩ := hopens
    obtain ⟨⟨i, hi, hentry, -⟩, -⟩ := read_dentry_by_name_some hlookup
    rw [hdesc, ho']
    refine ⟨hge, ⟨i, hi, hentry⟩, hknown, ?_⟩
    rw [openedDesc_start]
    exact openedDesc_known hknown _ _
  | read hp hcall hbefore hread ho' =>
    have htracked := hok p fd _ hbefore
    rw [ho']
    rcases read_func_cases hread with ⟨hk, -⟩ | ⟨j, -, -, -, hdriver⟩
    · rw [hk]
      exact htracked
    · obtain ⟨pos, hdesc⟩ := (OpTable.read_desc hdriver p fd).1
      rw [hdesc]
      exact htracked.move pos

/-- A call of the first shell. -/
def shellCall (call : FileCall) : CallEvent :=
  { pid := 0, running_term := 0, console := sampleKernel.console, call := call }

end Kernel391
