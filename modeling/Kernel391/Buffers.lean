import Kernel391.CommandTheorems
import Kernel391.FileCalls
import Kernel391.FileContents
import Kernel391.Lib.AddressRange
import Kernel391.VideoMemory

/-!
# The caller's buffer

Which bytes of its buffer a read stores, and what it returns, driver by driver
(`OpTable.read_stores`, `OpTable.read_ret`). Two questions are answered from that: when a
call keeps to the number of bytes it was given (`OpTable.CountOk`), and when all it stores
lies in the program's page (`OutputCall.Safe`).
-/

namespace Kernel391

open AddressRange

/-! ## What the drivers store -/

/-- The driver does not fault, and what it waits for is there. -/
def OpTable.Answers (m : Machine) (k : Kernel) : OpTable → Prop
  | .null => False
  | .rtc => (k.term k.running_term).rtc_freq ≠ 0
  | .dir => k.fs.dir_number < m.img.num_dir_entries →
    strlen (m.img.file_name k.fs.dir_number) < sizeof_dentry
  | .file => True
  | .stdin => (k.console.term k.running_term).has_enter = true
  | .stdout => True

/-- The driver then stores byte `j` of the buffer. -/
def OpTable.Stores (m : Machine) (k : Kernel) (fd : Fd) (nbytes : ℤ) (j : ℕ) : OpTable → Prop
  | .dir => k.fs.dir_number < m.img.num_dir_entries ∧
    j < min (strlen (m.img.file_name k.fs.dir_number)) MAX_NAME_LENGTH
  | .file =>
    let desc := (k.pcb k.cur_pid).fd_table fd
    desc.inode < m.img.num_inodes ∧ j < toUnsigned nbytes ∧
      m.img.Reads desc.inode desc.file_position j
  | .stdin => j < min nbytes.toNat k.console.length_key
  | _ => False

section
variable {m : Machine} {k k' : Kernel} {table : OpTable} {fd : Fd} {nbytes : ℤ} {r : ReadResult}

/-- What `dir_read` does, wherever the cursor is. -/
theorem dir_read_cases {img : Image} {fs fs' : FsGlobals} (h : dir_read img fs = some (fs', r)) :
    (img.num_dir_entries ≤ fs.dir_number ∧ r.stored.length = 0 ∧ r.ret = 0) ∨
      fs.dir_number < img.num_dir_entries ∧
        strlen (img.file_name fs.dir_number) < sizeof_dentry ∧
        r.stored.length = min (strlen (img.file_name fs.dir_number)) MAX_NAME_LENGTH ∧
        r.ret = toInt32 r.stored.length := by
  unfold dir_read read_dentry_by_index at h
  by_cases hlast : fs.dir_number ≥ img.num_dir_entries
  · rw [if_pos hlast, Option.some.injEq, Prod.mk.injEq] at h
    rw [← h.2]
    exact Or.inl ⟨hlast, rfl, rfl⟩
  · rw [if_neg hlast] at h
    by_cases hlong : strlen (img.file_name fs.dir_number) ≥ sizeof_dentry
    · rw [if_pos hlong] at h
      cases h
    · rw [if_neg hlong] at h
      dsimp only at h
      rw [Option.some.injEq, Prod.mk.injEq] at h
      refine Or.inr ⟨Nat.lt_of_not_le hlast, Nat.lt_of_not_le hlong, ?_⟩
      rw [← h.2]
      dsimp only
      rw [strncpy, List.length_map, List.length_range]
      refine ⟨?_, rfl⟩
      split_ifs with hmax
      · exact (Nat.min_eq_right hmax).symm
      · exact (Nat.min_eq_left (Nat.le_of_not_le hmax)).symm

/-- It fails only on a name that does not end. -/
theorem dir_read_isSome {img : Image} {fs : FsGlobals}
    (h : fs.dir_number < img.num_dir_entries →
      strlen (img.file_name fs.dir_number) < sizeof_dentry) : ∃ x, dir_read img fs = some x := by
  unfold dir_read read_dentry_by_index
  by_cases hlast : fs.dir_number ≥ img.num_dir_entries
  · rw [if_pos hlast]
    exact ⟨_, rfl⟩
  · rw [if_neg hlast, if_neg (Nat.not_le.mpr (h (Nat.lt_of_not_le hlast)))]
    exact ⟨_, rfl⟩

/-- What `file_read` reads, if its inode exists. -/
theorem file_read_cases (h : file_read m fd nbytes k = (k', r)) :
    let desc := (k.pcb k.cur_pid).fd_table fd
    (m.img.num_inodes ≤ desc.inode ∧ r = .failed) ∨ desc.inode < m.img.num_inodes ∧
      ReadsFrom m.img desc.inode desc.file_position (toUnsigned nbytes) 0 r := by
  have hr : read_data m.img ((k.pcb k.cur_pid).fd_table fd).inode
      ((k.pcb k.cur_pid).fd_table fd).file_position (toUnsigned nbytes) = r :=
    congrArg Prod.snd h
  rw [← hr]
  exact read_data_cases _ _ _ _

theorem OpTable.read_isSome : (∃ x, table.read m fd nbytes k = some x) ↔ table.Answers m k := by
  constructor
  · rintro ⟨⟨k', r⟩, h⟩
    rcases OpTable.read_cases h with ⟨rfl, hfreq, -⟩ | ⟨rfl, fs, hdir, -⟩ | ⟨rfl, -⟩ |
      ⟨rfl, hin⟩ | ⟨rfl, -⟩
    · exact hfreq
    · intro hlt
      rcases dir_read_cases hdir with ⟨hend, -⟩ | ⟨-, hshort, -⟩
      · exact absurd hlt (Nat.not_lt.mpr hend)
      · exact hshort
    · trivial
    · exact (terminal_read_eq hin).1
    · trivial
  · intro h
    cases table with
    | null => exact h.elim
    | rtc =>
      refine ⟨(k, { ret := 0, stored := [] }), ?_⟩
      exact if_neg h
    | dir =>
      obtain ⟨x, hx⟩ := dir_read_isSome h
      refine ⟨({ k with fs := x.1 }, x.2), ?_⟩
      unfold OpTable.read
      rw [hx]
      rfl
    | file => exact ⟨_, rfl⟩
    | stdin =>
      have henter : ¬ (k.console.term k.running_term).has_enter = false := by
        rw [show (k.console.term k.running_term).has_enter = true from h]
        decide
      exact ⟨_, if_neg henter⟩
    | stdout => exact ⟨_, rfl⟩

theorem OpTable.read_stores (h : table.read m fd nbytes k = some (k', r)) (j : ℕ) :
    j < r.stored.length ↔ table.Stores m k fd nbytes j := by
  rcases OpTable.read_cases h with ⟨rfl, -, -, rfl⟩ | ⟨rfl, fs, hdir, -⟩ | ⟨rfl, hfile⟩ |
    ⟨rfl, hin⟩ | ⟨rfl, -, rfl⟩
  · exact iff_of_false (Nat.not_lt_zero j) id
  · unfold OpTable.Stores
    rcases dir_read_cases hdir with ⟨hend, hlen, -⟩ | ⟨hlt, -, hlen, -⟩
    · rw [hlen]
      exact iff_of_false (Nat.not_lt_zero j) fun hj => absurd hj.1 (Nat.not_lt.mpr hend)
    · rw [hlen]
      exact ⟨fun hj => ⟨hlt, hj⟩, fun hj => hj.2⟩
  · unfold OpTable.Stores
    rcases file_read_cases hfile with ⟨hnone, rfl⟩ | ⟨hinode, hreads⟩
    · exact iff_of_false (Nat.not_lt_zero j) fun hj => absurd hj.1 (Nat.not_lt.mpr hnone)
    · rw [hreads.count]
      exact ⟨fun hj => ⟨hinode, hj⟩, fun hj => hj.2⟩
  · rw [(terminal_read_eq hin).2.2.1]
    exact Iff.rfl
  · exact iff_of_false (Nat.not_lt_zero j) id

/-- All drivers but the terminal's return -1 or the number of bytes they have stored. -/
theorem OpTable.read_ret (h : table.read m fd nbytes k = some (k', r)) (hnot : table ≠ .stdin) :
    r.ret = -1 ∨ r.ret = toInt32 r.stored.length := by
  rcases OpTable.read_cases h with ⟨-, -, -, rfl⟩ | ⟨-, fs, hdir, -⟩ | ⟨-, hfile⟩ |
    ⟨hin, -⟩ | ⟨-, -, rfl⟩
  · exact Or.inr (toInt32_eq (by decide)).symm
  · rcases dir_read_cases hdir with ⟨-, hlen, hret⟩ | ⟨-, -, -, hret⟩
    · rw [hret, hlen]
      exact Or.inr (toInt32_eq (by decide)).symm
    · exact Or.inr hret
  · rcases file_read_cases hfile with ⟨-, rfl⟩ | ⟨-, hreads⟩
    · exact Or.inl rfl
    · rcases hreads.ret with hret | ⟨hret, -⟩
      · rw [Nat.zero_add] at hret
        exact Or.inr hret
      · exact Or.inl hret
  · exact absurd hin hnot
  · exact Or.inl rfl

end

/-! ## The number of bytes -/

/-- A read stores at most `nbytes` bytes, none if that is negative, and returns -1 or a count
that is no larger. -/
def RespectsCount (nbytes : ℤ) (r : ReadResult) : Prop :=
  r.stored.length ≤ nbytes.toNat ∧ (r.ret = -1 ∨ 0 ≤ r.ret ∧ r.ret ≤ nbytes.toNat)

instance (nbytes : ℤ) (r : ReadResult) : Decidable (RespectsCount nbytes r) := by
  unfold RespectsCount
  infer_instance

/-- When a driver does. The directory's stores a whole name. The file's and the terminal's
take a negative number for a large one, which does no harm at the end of the file or with
nothing typed. -/
def OpTable.CountOk (m : Machine) (k : Kernel) (fd : Fd) (nbytes : ℤ) : OpTable → Prop
  | .dir => k.fs.dir_number < m.img.num_dir_entries →
    min (strlen (m.img.file_name k.fs.dir_number)) MAX_NAME_LENGTH ≤ nbytes.toNat
  | .file =>
    let desc := (k.pcb k.cur_pid).fd_table fd
    0 ≤ nbytes ∨ m.img.num_inodes ≤ desc.inode ∨
      m.img.length desc.inode ≤ desc.file_position % addressSpace
  | .stdin =>
    0 ≤ nbytes ∨ k.console.length_key = 0 ∨ toUnsigned nbytes ≤ k.console.length_key
  | _ => True

section
variable {m : Machine} {k k' : Kernel} {table : OpTable} {fd : Fd} {nbytes : ℤ} {r : ReadResult}

theorem toUnsigned_of_nonneg (h0 : 0 ≤ nbytes) (hhi : nbytes < 2 ^ 31) :
    toUnsigned nbytes = nbytes.toNat := by
  have heq := toUnsigned_eq h0 hhi
  omega

theorem toUnsigned_of_neg (hlo : -2 ^ 31 ≤ nbytes) (hneg : nbytes < 0) :
    2 ^ 31 ≤ toUnsigned nbytes ∧ toUnsigned nbytes < 2 ^ 32 := by
  unfold toUnsigned addressSpace
  omega

/-- A driver that returns what it has stored has only to keep that short. -/
theorem respectsCount_iff (hhi : nbytes < 2 ^ 31)
    (hret : r.ret = -1 ∨ r.ret = toInt32 r.stored.length) :
    RespectsCount nbytes r ↔ r.stored.length ≤ nbytes.toNat := by
  constructor
  · intro h
    exact h.1
  · intro h
    refine ⟨h, hret.imp id fun hret => ?_⟩
    rw [hret, toInt32_eq (by omega)]
    omega

/-- A read of a file stores nothing from its end on. -/
theorem file_read_respects {img : Image} {inode pos : ℕ} (hlo : -2 ^ 31 ≤ nbytes)
    (hhi : nbytes < 2 ^ 31) (h : ReadsFrom img inode pos (toUnsigned nbytes) 0 r) :
    r.stored.length ≤ nbytes.toNat ↔ 0 ≤ nbytes ∨ img.length inode ≤ pos % addressSpace := by
  by_cases hneg : nbytes < 0
  · have hlarge := toUnsigned_of_neg hlo hneg
    have hfirst := h.count 0
    rw [Image.reads_zero] at hfirst
    have hzero : nbytes.toNat = 0 := by omega
    rw [hzero]
    constructor
    · intro hlen
      refine Or.inr ?_
      by_contra hend
      have hstored := hfirst.mpr ⟨by omega, by omega⟩
      omega
    · intro hend
      by_contra hlen
      have hread := (hfirst.mp (by omega)).2
      omega
  · refine iff_of_true ?_ (Or.inl (by omega))
    rw [← toUnsigned_of_nonneg (by omega) hhi]
    by_contra hlong
    have hlast := (h.count (toUnsigned nbytes)).mp (by omega)
    exact Nat.lt_irrefl _ hlast.1

/-- A read of the terminal returns what has been typed for a negative number. -/
theorem terminal_read_respects (hlo : -2 ^ 31 ≤ nbytes) (hhi : nbytes < 2 ^ 31)
    (h : terminal_read nbytes k = some (k', r)) :
    RespectsCount nbytes r ↔
      0 ≤ nbytes ∨ k.console.length_key = 0 ∨ toUnsigned nbytes ≤ k.console.length_key := by
  obtain ⟨-, -, hlen, hret⟩ := terminal_read_eq h
  have hshort : r.stored.length ≤ nbytes.toNat := by
    rw [hlen]
    exact Nat.min_le_left _ _
  unfold RespectsCount
  rw [and_iff_right hshort, hret]
  by_cases hneg : nbytes < 0
  · have hlarge := toUnsigned_of_neg hlo hneg
    have hzero : nbytes.toNat = 0 := by omega
    rw [hzero]
    split_ifs with hkeys
    · unfold toInt32 addressSpace
      rw [Int.bmod_def]
      split_ifs <;> omega
    · rw [toInt32_eq (by decide)]
      omega
  · have hsame := toUnsigned_of_nonneg (by omega) hhi
    refine iff_of_true (Or.inr ?_) (Or.inl (by omega))
    split_ifs with hkeys
    · rw [toInt32_eq (by omega)]
      omega
    · rw [toInt32_eq (by omega)]
      omega

theorem OpTable.read_respects (hlo : -2 ^ 31 ≤ nbytes) (hhi : nbytes < 2 ^ 31)
    (h : table.read m fd nbytes k = some (k', r)) :
    RespectsCount nbytes r ↔ table.CountOk m k fd nbytes := by
  by_cases hin : table = .stdin
  · subst hin
    exact terminal_read_respects hlo hhi h
  rw [respectsCount_iff hhi (OpTable.read_ret h hin)]
  rcases OpTable.read_cases h with ⟨rfl, -, -, rfl⟩ | ⟨rfl, fs, hdir, -⟩ | ⟨rfl, hfile⟩ |
    ⟨rfl, -⟩ | ⟨rfl, -, rfl⟩
  · exact iff_of_true (Nat.zero_le _) trivial
  · unfold OpTable.CountOk
    rcases dir_read_cases hdir with ⟨hend, hlen, -⟩ | ⟨hlt, -, hlen, -⟩
    · rw [hlen]
      exact iff_of_true (Nat.zero_le _) fun hlt => absurd hlt (Nat.not_lt.mpr hend)
    · rw [hlen]
      exact ⟨fun hle _ => hle, fun hle => hle hlt⟩
  · unfold OpTable.CountOk
    rcases file_read_cases hfile with ⟨hnone, rfl⟩ | ⟨hinode, hreads⟩
    · exact iff_of_true (Nat.zero_le _) (Or.inr (Or.inl hnone))
    · rw [file_read_respects hlo hhi hreads]
      exact or_congr_right (or_iff_right (Nat.not_le.mpr hinode)).symm
  · exact absurd rfl hin
  · exact iff_of_true (Nat.zero_le _) trivial

/-- A write to the terminal returns one more than it has printed. -/
theorem terminal_write_ret (buf : Bytes) (nbytes : ℤ) (k : Kernel) :
    (terminal_write buf nbytes k).2 ≠ max nbytes 0 := by
  unfold terminal_write toInt32 addressSpace
  rw [Int.bmod_def]
  split_ifs <;> omega

/-- A descriptor in use is written through its driver. -/
theorem write_func_eq (hused : ((k.pcb k.cur_pid).fd_table fd).flags = true) (buf : Bytes) :
    write_func fd.val (some buf) nbytes k =
      (((k.pcb k.cur_pid).fd_table fd).op_table_ptr.write buf nbytes k.cli).map
        fun x => (x.1.sti, x.2) := by
  have hfd : ¬ ((fd.val : ℤ) < 0 ∨ (fd.val : ℤ) > MAX_FILES - 1) := by
    have hlt := fd.isLt
    simp only [MAX_FILES] at hlt ⊢
    omega
  have hi : (⟨(fd.val : ℤ).toNat, by simp⟩ : Fd) = fd := by simp
  have hused' : ((k.cli.pcb k.cli.cur_pid).fd_table fd).flags = true := hused
  unfold write_func
  dsimp only
  rw [dif_neg hfd]
  simp only [hi, hused']
  rfl

end

/-- A read through a descriptor in use keeps to the number of bytes if and only if its driver
does (a null buffer is never used). A write to the screen prints just the bytes of the
buffer, and never returns their number. -/
theorem count_respected {m : Machine} {k : Kernel} {fd : Fd} {nbytes : ℤ}
    (hused : ((k.pcb k.cur_pid).fd_table fd).flags = true) (hlo : -2 ^ 31 ≤ nbytes)
    (hhi : nbytes < 2 ^ 31) :
    (∀ buf k' r, read_func m fd.val buf nbytes k = some (k', r) →
      (RespectsCount nbytes r ↔
        buf = 0 ∨ ((k.pcb k.cur_pid).fd_table fd).op_table_ptr.CountOk m k fd nbytes)) ∧
    (((k.pcb k.cur_pid).fd_table fd).op_table_ptr = .stdout → ∀ buf,
      ∃ k' v, write_func fd.val (some buf) nbytes k = some (k', v) ∧
        k'.console = (bytesOf buf nbytes).foldl (fun s c => printChar k c s) k.console ∧
        (bytesOf buf nbytes).length = (max nbytes 0).toNat ∧ v ≠ max nbytes 0) := by
  constructor
  · intro buf k' r hread
    by_cases hbuf : buf = 0
    · have hfailed : r = .failed := by
        rcases read_func_cases hread with ⟨-, hr⟩ | ⟨i, -, hne, -⟩
        · exact hr
        · exact absurd hbuf hne
      rw [hfailed]
      exact iff_of_true ⟨Nat.zero_le _, Or.inl rfl⟩ (Or.inl hbuf)
    · rw [read_func_eq hbuf hused] at hread
      rw [or_iff_right hbuf]
      exact OpTable.read_respects hlo hhi hread
  · intro hout buf
    have hwrite : write_func fd.val (some buf) nbytes k = _ := write_func_eq hused buf
    rw [hout] at hwrite
    refine ⟨_, _, hwrite, rfl, ?_, ?_⟩
    · rw [bytesOf, List.length_map, List.length_range]
      omega
    · exact terminal_write_ret buf nbytes _

/-- The first shell has opened its file, and reads four bytes of it. -/
theorem count_respected_file : ∃ k, Reachable sampleMachine k ∧
    ((k.pcb k.cur_pid).fd_table 2).flags = true ∧
    ∀ buf k' r, read_func sampleMachine 2 buf 4 k = some (k', r) → RespectsCount 4 r := by
  obtain ⟨k, hreach, hcheck⟩ := sampleRun_exists [.open_file (some sampleMachine.shell)]
    (fun k => decide (((k.pcb k.cur_pid).fd_table 2).flags = true ∧
      ((k.pcb k.cur_pid).fd_table 2).op_table_ptr = .file)) (by decide +kernel)
  rw [decide_eq_true_eq] at hcheck
  obtain ⟨hused, htable⟩ := hcheck
  refine ⟨k, hreach, hused, fun buf k' r hread => ?_⟩
  refine ((count_respected hused (by decide) (by decide)).1 buf k' r hread).mpr (Or.inr ?_)
  rw [htable]
  exact Or.inl (by decide)

/-- There a read of -1 bytes stores the whole file, and a write of one byte returns 2. -/
theorem count_not_respected : ∃ k, Reachable sampleMachine k ∧
    (((k.pcb k.cur_pid).fd_table 2).flags = true ∧
      ∃ x, read_func sampleMachine 2 0x8100000 (-1) k = some x ∧ ¬ RespectsCount (-1) x.2) ∧
    (((k.pcb k.cur_pid).fd_table 1).flags = true ∧
      ∃ x, write_func 1 (some fun _ => 0x61) 1 k = some x ∧ x.2 ≠ 1) := by
  obtain ⟨k, hreach, hcheck⟩ := sampleRun_exists [.open_file (some sampleMachine.shell)]
    (fun k => decide (((k.pcb k.cur_pid).fd_table 2).flags = true ∧
      ((k.pcb k.cur_pid).fd_table 1).flags = true) &&
      (read_func sampleMachine 2 0x8100000 (-1) k).any
        (fun x : Kernel × ReadResult => !decide (RespectsCount (-1) x.2)) &&
      (write_func 1 (some fun _ => 0x61) 1 k).any fun x : Kernel × ℤ => decide (x.2 ≠ 1))
    (by decide +kernel)
  simp only [Bool.and_eq_true, decide_eq_true_eq, Option.any_eq_true, Bool.not_eq_true',
    decide_eq_false_iff_not] at hcheck
  obtain ⟨⟨⟨hfile, hout⟩, hread⟩, hwrite⟩ := hcheck
  exact ⟨k, hreach, ⟨hfile, hread⟩, hout, hwrite⟩

/-! ## Where the buffer lies -/

/-- The system calls that store through a pointer of their caller. -/
inductive OutputCall where
  | vidmap (screen_start : Word)
  | read (fd : ℤ) (buf : Word) (nbytes : ℤ)
  | getargs (buf : Word) (nbytes : ℤ)

/-- The state a call is answered in. A read that has no line to copy yet waits for one, while
others run and keys are pressed; of what it goes by only the console changes, to `later`. -/
def Kernel.answering (k : Kernel) (later : Console) : Kernel :=
  if (k.console.term k.running_term).has_enter = true then k else { k with console := later }

/-- The addresses a call begun in `k` stores to, or dies of a page fault at: it does not return
-1 for any of them. If it has to wait for a line, `later` is the console its wait ends with. -/
def OutputCall.writes (m : Machine) (k : Kernel) (later : Console) : OutputCall → List ℕ
  | .vidmap screen_start => if Accepted screen_start then addresses screen_start 4 else []
  | .read fd buf nbytes =>
    addresses buf
      (((read_func m fd buf nbytes (k.answering later)).map fun x => x.2.stored.length).getD 0)
  | .getargs buf nbytes => addresses buf (getargs_func buf nbytes k).stored.length

/-- An address in the user page. -/
def InPage (a : ℕ) : Prop := _128MB ≤ a ∧ a < _132MB

instance (a : ℕ) : Decidable (InPage a) := by
  unfold InPage
  infer_instance

/-- The user page holds all of `n` bytes. -/
def Inside (buf : Word) (n : ℕ) : Prop :=
  n = 0 ∨ _128MB ≤ buf.toNat ∧ buf.toNat + n ≤ _132MB

/-- The buffer lies where it should, as far as the call uses it. -/
def OutputCall.Safe (m : Machine) (k : Kernel) (later : Console) : OutputCall → Prop
  | .vidmap screen_start => Accepted screen_start → Inside screen_start 4
  | .read fd buf nbytes => buf ≠ 0 → ∀ i : Fd, fd = i.val →
    ((k.pcb k.cur_pid).fd_table i).flags = true →
      ((k.pcb k.cur_pid).fd_table i).op_table_ptr.Answers m (k.answering later) →
        ∀ j, ((k.pcb k.cur_pid).fd_table i).op_table_ptr.Stores m (k.answering later) i nbytes j →
          Inside buf (j + 1)
  | .getargs buf nbytes => buf ≠ 0 → nbytes ≠ 0 → strlen (k.pcb k.cur_pid).arg ≠ 0 →
    Inside buf (toUnsigned nbytes)

section
variable {m : Machine} {k k' : Kernel} {later : Console} {fd nbytes : ℤ} {buf : Word}

/-- The wait leaves the process and its descriptors as they are. -/
theorem answering_desc (i : Fd) :
    ((k.answering later).pcb (k.answering later).cur_pid).fd_table i =
      (k.pcb k.cur_pid).fd_table i := by
  unfold Kernel.answering
  split_ifs <;> rfl

theorem forall_addresses_inPage {n : ℕ} : (∀ a ∈ addresses buf n, InPage a) ↔ Inside buf n :=
  forall_mem_addresses (by decide)

/-- The last byte decides. -/
theorem inside_iff {n : ℕ} : Inside buf n ↔ ∀ j < n, Inside buf (j + 1) := by
  unfold Inside
  constructor
  · intro h j hj
    omega
  · intro h
    rcases Nat.eq_zero_or_pos n with hn | hn
    · exact Or.inl hn
    · have hlast := h (n - 1) (by omega)
      omega

/-- `vidmap` refuses a pointer, or stores at the four addresses. -/
theorem vidmap_func_writes {screen_start : Word} {v : ℤ}
    (h : vidmap_func m screen_start k = some (k', v)) :
    (v = -1 ∧ k' = k ∧ (OutputCall.vidmap screen_start).writes m k later = []) ∨
      v = 0 ∧ (∃ k₁, storeThrough m screen_start _132MB k = some k₁ ∧ k' = vidmap m k₁) ∧
        (OutputCall.vidmap screen_start).writes m k later =
          (List.range 4).map fun i => (screen_start + BitVec.ofNat 32 i).toNat := by
  unfold vidmap_func at h
  by_cases hptr : Accepted screen_start
  · rw [if_neg hptr, Option.bind_eq_bind, Option.bind_eq_some_iff] at h
    obtain ⟨k₁, hstore, h⟩ := h
    rw [Option.some.injEq, Prod.mk.injEq] at h
    exact Or.inr ⟨h.2.symm, ⟨k₁, hstore, h.1.symm⟩, if_pos hptr⟩
  · rw [if_pos (not_not.mp hptr), Option.some.injEq, Prod.mk.injEq] at h
    exact Or.inl ⟨h.2.symm, h.1.symm, if_neg hptr⟩

/-- A read stores in the page if and only if every byte its driver stores lies there. -/
theorem read_inside_iff :
    Inside buf (((read_func m fd buf nbytes k).map fun x => x.2.stored.length).getD 0) ↔
      (buf ≠ 0 → ∀ i : Fd, fd = i.val → ((k.pcb k.cur_pid).fd_table i).flags = true →
        ((k.pcb k.cur_pid).fd_table i).op_table_ptr.Answers m k →
          ∀ j, ((k.pcb k.cur_pid).fd_table i).op_table_ptr.Stores m k i nbytes j →
            Inside buf (j + 1)) := by
  -- a descriptor in use is read by its driver
  have hdriver : buf ≠ 0 → ∀ i : Fd, fd = i.val → ((k.pcb k.cur_pid).fd_table i).flags = true →
      ((k.pcb k.cur_pid).fd_table i).op_table_ptr.read m i nbytes k =
        read_func m fd buf nbytes k := by
    intro hbuf i hi hused
    rw [hi]
    exact (read_func_eq hbuf hused).symm
  cases hread : read_func m fd buf nbytes k with
  | none =>
    refine iff_of_true (Or.inl rfl) fun hbuf i hi hused hanswers => ?_
    obtain ⟨x, hx⟩ := OpTable.read_isSome.mpr hanswers
    rw [hdriver hbuf i hi hused, hread] at hx
    cases hx
  | some x =>
    obtain ⟨k', r⟩ := x
    rw [Option.map_some, Option.getD_some, inside_iff]
    constructor
    · intro h hbuf i hi hused _ j hj
      exact h j ((OpTable.read_stores ((hdriver hbuf i hi hused).trans hread) j).mpr hj)
    · intro h j hj
      rcases read_func_cases hread with ⟨-, hr⟩ | ⟨i, hi, hbuf, hused, hx⟩
      · rw [hr] at hj
        exact absurd hj (Nat.not_lt_zero j)
      · exact h hbuf i hi hused (OpTable.read_isSome.mp ⟨_, hx⟩) j
          ((OpTable.read_stores hx j).mp hj)

theorem read_confined : (∀ a ∈ (OutputCall.read fd buf nbytes).writes m k later, InPage a) ↔
    (OutputCall.read fd buf nbytes).Safe m k later := by
  rw [OutputCall.writes, OutputCall.Safe, forall_addresses_inPage, read_inside_iff]
  simp only [answering_desc]

/-- A keyboard read that waits stores from the line its wait ends with. -/
theorem waiting_read_writes {i : Fd} (hbuf : buf ≠ 0)
    (hused : ((k.pcb k.cur_pid).fd_table i).flags = true)
    (hin : ((k.pcb k.cur_pid).fd_table i).op_table_ptr = .stdin)
    (hwait : (k.console.term k.running_term).has_enter = false)
    (hline : (later.term k.running_term).has_enter = true) :
    (OutputCall.read i.val buf nbytes).writes m k later =
      addresses buf (min nbytes.toNat later.length_key) := by
  have hnow : k.answering later = { k with console := later } := by
    rw [Kernel.answering, if_neg (by rw [hwait]; decide)]
  have hdriver : read_func m i.val buf nbytes { k with console := later } =
      terminal_read nbytes { k with console := later } := by
    rw [read_func_eq (k := { k with console := later }) hbuf hused]
    dsimp only
    rw [hin]
    rfl
  obtain ⟨⟨k', r⟩, hread⟩ : ∃ x, terminal_read nbytes { k with console := later } = some x :=
    ⟨_, if_neg (by rw [hline]; decide)⟩
  rw [OutputCall.writes, hnow, hdriver, hread, Option.map_some, Option.getD_some,
    (terminal_read_eq hread).2.2.1]

theorem getargs_confined : (∀ a ∈ (OutputCall.getargs buf nbytes).writes m k later, InPage a) ↔
    (OutputCall.getargs buf nbytes).Safe m k later := by
  rw [OutputCall.writes, OutputCall.Safe, forall_addresses_inPage]
  unfold getargs_func
  dsimp only
  by_cases hnone : buf = 0 ∨ nbytes = 0
  · rw [if_pos hnone]
    refine iff_of_true (Or.inl rfl) fun hbuf hn => ?_
    rcases hnone with hzero | hzero
    · exact absurd hzero hbuf
    · exact absurd hzero hn
  rw [if_neg hnone]
  by_cases hempty : strlen (k.pcb k.cur_pid).arg = 0
  · rw [if_pos hempty]
    exact iff_of_true (Or.inl rfl) fun _ _ harg => absurd hempty harg
  · rw [if_neg hempty, strncpy, List.length_map, List.length_range]
    rw [not_or] at hnone
    exact ⟨fun h _ _ _ => h, fun h => h hnone.1 hnone.2 hempty⟩

end

/-- A call stores within the user page only if and only if its buffer lies there, as far as
it is used, be it at once or after a wait for whatever is typed. The kernel checks nothing of
the kind. -/
theorem output_confined (m : Machine) (k : Kernel) (later : Console) (c : OutputCall) :
    (∀ a ∈ c.writes m k later, InPage a) ↔ c.Safe m k later := by
  cases c with
  | vidmap screen_start =>
    rw [OutputCall.writes, OutputCall.Safe]
    by_cases hptr : Accepted screen_start
    · rw [if_pos hptr, forall_addresses_inPage]
      exact ⟨fun h _ => h, fun h => h hptr⟩
    · rw [if_neg hptr]
      exact iff_of_true (fun a ha => absurd ha List.not_mem_nil) fun h => absurd h hptr
  | read fd buf nbytes => exact read_confined
  | getargs buf nbytes => exact getargs_confined

/-- The first shell has `vidmap` store in the kernel's page directory, and gets 0. -/
theorem output_not_confined : ∃ k k', Reachable sampleMachine k ∧
    vidmap_func sampleMachine 0x410082 k = some (k', 0) ∧
    k'.paging.page_directory userEntry ≠ k.paging.page_directory userEntry ∧
    ¬ ∀ a ∈ (OutputCall.vidmap 0x410082).writes sampleMachine k k.console, InPage a := by
  obtain ⟨k, hreach, hcheck⟩ := sampleRun_exists [] (fun k =>
    (vidmap_func sampleMachine 0x410082 k).any fun x : Kernel × ℤ => decide (x.2 = 0 ∧
      x.1.paging.page_directory userEntry ≠ k.paging.page_directory userEntry))
    (by decide +kernel)
  rw [Option.any_eq_true] at hcheck
  obtain ⟨⟨k', v⟩, hvid, hx⟩ := hcheck
  rw [decide_eq_true_eq] at hx
  obtain ⟨hv, hentry⟩ := hx
  obtain rfl : v = 0 := hv
  refine ⟨k, k', hreach, hvid, hentry, fun hall => ?_⟩
  rw [OutputCall.writes, if_pos (by decide)] at hall
  exact absurd (hall 0x410082 (by decide)) (by decide)

end Kernel391
