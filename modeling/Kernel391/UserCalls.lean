import Kernel391.Children
import Kernel391.FileContents
import Kernel391.Lib.Programs
import Kernel391.Names
import Kernel391.RtcRates

/-!
# Programs on the kernel

A user program runs on the kernel next to others, which do something between two of its system
calls: anything that `Spares` allows, so no Ctrl+C while the program runs on a terminal that is
not on display, no `execute` from such a terminal, and nobody on the kernel stack of another.
System calls are atomic, and none is given a pointer into the kernel's memory.
`platform` is the kernel as such a program sees it. What the program knows of it is a `View`,
and each call has one rule that says how the view changes (`ensures_open`, `ensures_read_file`,
`ensures_write` and so on).
-/

namespace Kernel391

open Programs Words Stream

/-! ## The calls of a program -/

inductive UserCall where
  | getargs (nbytes : ℤ)
  | open_file (filename : Bytes)
  | close (fd : ℤ)
  | read (fd nbytes : ℤ)
  | write (fd : ℤ) (buf : Bytes) (nbytes : ℤ)
  | execute (command : Bytes)

/-- The kernel, and what the program has printed. -/
structure UserWorld where
  kernel : Kernel
  printed : List UInt8

/-- A local array of a program lies on its stack. The kernel compares its address with 0. -/
def localArray : Word := BitVec.ofNat 32 (_132MB - four_KB)

theorem toNat_lt_max_files {fd : ℤ} (h : ¬ (fd < 0 ∨ fd > MAX_FILES - 1)) :
    fd.toNat < MAX_FILES := by omega

/-- The bytes of a `write` that get to the terminal. -/
def shown (fd : ℤ) (buf : Bytes) (nbytes : ℤ) (k : Kernel) : List UInt8 :=
  if h : fd < 0 ∨ fd > MAX_FILES - 1 then []
  else
    let desc := (k.pcb k.cur_pid).fd_table ⟨fd.toNat, toNat_lt_max_files h⟩
    if desc.flags = true ∧ desc.op_table_ptr = .stdout then bytesOf buf nbytes else []

/-- Only the terminal's driver prints. -/
theorem OpTable.write_console {table : OpTable} {buf : Bytes} {nbytes r : ℤ} {k k' : Kernel}
    (h : table.write buf nbytes k = some (k', r)) :
    k'.console = (if table = .stdout then bytesOf buf nbytes else []).foldl
      (fun s c => printChar k c s) k.console := by
  cases table with
  | null => cases h
  | rtc =>
    rcases OpTable.write_cases h with ⟨-, hk⟩ | ⟨hne, -⟩
    · rw [if_neg (by simp), List.foldl_nil, hk, rtc_write_eq]
      split_ifs
      · rfl
      · rfl
    · exact absurd rfl hne
  | dir | file | stdin =>
    rw [OpTable.write, Option.some.injEq, Prod.mk.injEq] at h
    rw [if_neg (by simp), List.foldl_nil, h.1]
  | stdout =>
    rw [OpTable.write, Option.some.injEq, Prod.ext_iff] at h
    dsimp only at h
    rw [if_pos rfl, ← h.1]
    rfl

/-- They are printed on the terminal, one by one. -/
theorem write_func_console {fd nbytes r : ℤ} {buf : Bytes} {k k' : Kernel}
    (h : write_func fd (some buf) nbytes k = some (k', r)) :
    k'.console = (shown fd buf nbytes k).foldl (fun s c => printChar k c s) k.console := by
  unfold shown
  rcases write_func_cases h with ⟨rfl, hfail⟩ | ⟨i, b, k₁, rfl, hb, hflag, hwrite, rfl⟩
  · by_cases hfd : fd < 0 ∨ fd > MAX_FILES - 1
    · rw [dif_pos hfd]
      rfl
    · have hfree := hfail.resolve_left (by simp) ⟨fd.toNat, by omega⟩
        (by show fd = fd.toNat; omega)
      rw [dif_neg hfd]
      dsimp only
      rw [if_neg (by rw [hfree]; simp)]
      rfl
  · cases hb
    have hlt := i.isLt
    have hfd : ¬ ((i.val : ℤ) < 0 ∨ (i.val : ℤ) > MAX_FILES - 1) := by
      simp only [MAX_FILES] at hlt ⊢
      omega
    have hi : (⟨(i.val : ℤ).toNat, by simp⟩ : Fd) = i := by simp
    rw [dif_neg hfd]
    simp only [hi, hflag, true_and]
    have hconsole := OpTable.write_console hwrite
    rw [show k₁.sti.console = k₁.console from rfl, hconsole]
    rfl

/-- What the kernel does for a call in one piece; `none` if it does not come back. -/
def UserCall.perform (m : Machine) (w : UserWorld) : UserCall → Option (UserWorld × ReadResult)
  | .getargs nbytes => some (w, getargs_func localArray nbytes w.kernel)
  | .open_file filename =>
    some ({ w with kernel := (open_func m (some filename) w.kernel).1 },
      { ret := (open_func m (some filename) w.kernel).2, stored := [] })
  | .close fd =>
    (close_func fd w.kernel).map fun (k, r) => ({ w with kernel := k }, { ret := r, stored := [] })
  | .read fd nbytes =>
    (read_func m fd localArray nbytes w.kernel).map fun (k, r) => ({ w with kernel := k }, r)
  | .write fd buf nbytes =>
    (write_func fd (some buf) nbytes w.kernel).map fun (k, r) =>
      ({ kernel := k, printed := w.printed ++ shown fd buf nbytes w.kernel },
        { ret := r, stored := [] })
  | .execute _ => none

/-- What a call comes to. An `execute` returns when the program it has started has ended. -/
inductive Replies (m : Machine) (p : Pid) (Alone : Prop) (w : UserWorld) :
    UserCall → UserWorld → ReadResult → Prop
  | performed {c : UserCall} {w' : UserWorld} {r : ReadResult} :
      c.perform m w = some (w', r) → Replies m p Alone w c w' r
  | executed {command : Bytes} {k : Kernel} {r : ℤ} : Executed m p command w.kernel k r →
      (Alone → k.fs.dir_number = w.kernel.fs.dir_number) →
      Replies m p Alone w (.execute command) { w with kernel := k } { ret := r, stored := [] }

/-- The kernel answers the calls of process `p`, which nothing disturbs (`Meanwhile`). With `Alone`
nobody else has moved the cursor of the directory in between. -/
def platform (m : Machine) (p : Pid) (Alone : Prop) : Platform UserCall ReadResult UserWorld where
  between w _ w₁ := Meanwhile m p w.kernel w₁.kernel ∧ w₁.kernel.cur_pid = p ∧
    w₁.printed = w.printed ∧ (Alone → w₁.kernel.fs.dir_number = w.kernel.fs.dir_number)
  answer w₁ c w₂ r := Replies m p Alone w₁ c w₂ r

/-- A user program. -/
abbrev UserProg := Prog UserCall ReadResult

/-! ## The library of the programs (`ece391support.c`, `ece391syscall.S`) -/

def ece391_getargs (nbytes : ℤ) : UserProg ReadResult := Prog.perform (.getargs nbytes)

def ece391_open (filename : Bytes) : UserProg ReadResult := Prog.perform (.open_file filename)

def ece391_close (fd : ℤ) : UserProg ReadResult := Prog.perform (.close fd)

def ece391_read (fd nbytes : ℤ) : UserProg ReadResult := Prog.perform (.read fd nbytes)

def ece391_write (fd : ℤ) (buf : Bytes) (nbytes : ℤ) : UserProg ReadResult :=
  Prog.perform (.write fd buf nbytes)

def ece391_execute (command : Bytes) : UserProg ReadResult := Prog.perform (.execute command)

def NEWLINE : UInt8 := 0x0a

def ece391_strlen (s : Bytes) : ℕ := scan (· != 0) s 0

/-- The result of the `write` is not looked at. -/
def ece391_fdputs (fd : ℤ) (s : Bytes) : UserProg Unit := do
  let _ ← ece391_write fd s (toInt32 (ece391_strlen s))
  return ()

/-! ## What a program knows of the kernel -/

structure View where
  fd_table : Fd → FileDesc
  arg : Bytes
  printed : List UInt8
  dir_number : ℕ

/-- The kernel is as process `p` sees it. -/
structure Sees (p : Pid) (Alone : Prop) (v : View) (w : UserWorld) : Prop where
  alive : Alive p w.kernel
  fd_table : (w.kernel.pcb p).fd_table = v.fd_table
  arg : (w.kernel.pcb p).arg = v.arg
  printed : w.printed = v.printed
  dir_number : Alone → w.kernel.fs.dir_number = v.dir_number

section
variable {m : Machine} {p : Pid} {Alone : Prop} {v : View} {w w₁ : UserWorld} {α : Type}
  {Q : α → UserWorld → Prop}

/-- The view lasts until the next call. -/
theorem Sees.between (h : Sees p Alone v w) {c : UserCall}
    (hbetween : (platform m p Alone).between w c w₁) :
    Sees p Alone v w₁ ∧ w₁.kernel.cur_pid = p := by
  obtain ⟨hmeanwhile, hcur, hprinted, hdir⟩ := hbetween
  obtain ⟨halive, hkeeps⟩ := Meanwhile.keeps h.alive hmeanwhile
  exact ⟨⟨halive, hkeeps.fd_table.trans h.fd_table, hkeeps.arg.trans h.arg,
    hprinted.trans h.printed, fun halone => (hdir halone).trans (h.dir_number halone)⟩, hcur⟩

/-- What is performed in one piece has one answer. -/
theorem Replies.unique {c : UserCall} {w₂ w₂' : UserWorld} {r r' : ReadResult}
    (h : Replies m p Alone w c w₂ r) (hperform : c.perform m w = some (w₂', r')) :
    w₂ = w₂' ∧ r = r' := by
  cases h with
  | performed h => exact Prod.mk.inj (Option.some.inj (h.symm.trans hperform))
  | executed => cases hperform

/-- A call that the kernel answers in one way. -/
theorem ensures_call {c : UserCall} {f : ReadResult → UserProg α}
    (h : Sees p Alone v w)
    (hperform : ∀ w₁, Sees p Alone v w₁ → w₁.kernel.cur_pid = p →
      ∃ w₂ r, c.perform m w₁ = some (w₂, r) ∧ Ensures (platform m p Alone) Q (f r) w₂) :
    Ensures (platform m p Alone) Q ((Prog.perform c).bind f) w := by
  refine .call (fun w₁ hbetween => ?_) fun w₁ w₂ r hbetween hanswer => ?_
  · obtain ⟨hsees, hcur⟩ := h.between hbetween
    obtain ⟨w₂, r, hanswer, -⟩ := hperform w₁ hsees hcur
    exact ⟨w₂, r, .performed hanswer⟩
  · obtain ⟨hsees, hcur⟩ := h.between hbetween
    obtain ⟨w₂', r', hanswer', hrest⟩ := hperform w₁ hsees hcur
    obtain ⟨rfl, rfl⟩ := hanswer.unique hanswer'
    exact hrest

theorem setDesc_own_table (fd : Fd) (desc : FileDesc) (k : Kernel) :
    ((setDesc p fd desc k).pcb p).fd_table = Function.update (k.pcb p).fd_table fd desc := by
  unfold setDesc Kernel.modPcb
  dsimp only
  rw [Function.update_self]

theorem setDesc_quiet (fd : Fd) (desc : FileDesc) (k : Kernel) :
    Quiet k (setDesc k.cur_pid fd desc k) :=
  Quiet.of_table k k.fs _

/-- After a call that changes at most the descriptors of `p`. -/
theorem Sees.quiet {k : Kernel} (h : Sees p Alone v w) (printed : List UInt8)
    (hquiet : Quiet w.kernel k) (table : Fd → FileDesc) (n : ℕ)
    (htable : (k.pcb p).fd_table = table) (hdir : Alone → k.fs.dir_number = n) :
    Sees p Alone { v with fd_table := table, printed := printed, dir_number := n }
      { kernel := k, printed := printed } := by
  obtain ⟨F, hF⟩ := h.alive.forest
  refine ⟨⟨⟨F, hquiet.links_eq ▸ hF⟩, hquiet.separate h.alive.separate, ?_⟩, htable, ?_, rfl,
    hdir⟩
  · have harray : k.links.pid_array p = w.kernel.links.pid_array p := by rw [hquiet.links_eq]
    exact harray.trans h.alive.used
  · obtain ⟨_, freq, paging, console, fs, frame, -, rfl⟩ := hquiet
    exact (update_field Pcb.arg p).trans h.arg

/-! ## One rule for each call -/

/-- What `getargs` returns to a process with this argument. -/
def argumentReply (arg : Bytes) (nbytes : ℤ) : ReadResult :=
  if nbytes = 0 ∨ strlen arg = 0 then .failed
  else { ret := 0, stored := strncpy arg (toUnsigned nbytes) }

theorem ensures_getargs {nbytes : ℤ} {f : ReadResult → UserProg α} (h : Sees p Alone v w)
    (hrest : ∀ w', Sees p Alone v w' →
      Ensures (platform m p Alone) Q (f (argumentReply v.arg nbytes)) w') :
    Ensures (platform m p Alone) Q ((ece391_getargs nbytes).bind f) w := by
  refine ensures_call h fun w₁ hsees hcur => ⟨w₁, argumentReply v.arg nbytes, ?_, hrest w₁ hsees⟩
  have hbuf : localArray ≠ 0 := by decide
  have hreply : getargs_func localArray nbytes w₁.kernel = argumentReply v.arg nbytes := by
    unfold getargs_func argumentReply
    rw [hcur, hsees.arg]
    dsimp only
    by_cases hn : nbytes = 0
    · rw [if_pos (Or.inr hn), if_pos (Or.inl hn)]
    · by_cases harg : strlen v.arg = 0
      · rw [if_neg (not_or.mpr ⟨hbuf, hn⟩), if_pos harg, if_pos (Or.inr harg)]
      · rw [if_neg (not_or.mpr ⟨hbuf, hn⟩), if_neg harg, if_neg (not_or.mpr ⟨hn, harg⟩)]
  rw [UserCall.perform, hreply]

/-- The directory has entry `d` under this name, and it is no name of the console. -/
def Names (m : Machine) (name : Bytes) (d : Dentry) : Prop :=
  ¬ ConsoleName name ∧ ∀ fs, ∃ fs', read_dentry_by_name m.img name fs = some (d, fs')

/-- `open` of a name finds its entry. -/
theorem ensures_open {name : Bytes} {d : Dentry} {fd : Fd} {f : ReadResult → UserProg α}
    (h : Sees p Alone v w) (hname : Names m name d) (hknown : d.file_type ≤ 2)
    (hfree : FirstFree v.fd_table fd)
    (hrest : ∀ w', Sees p Alone
        { v with fd_table := Function.update v.fd_table fd (openedDesc d (v.fd_table fd)) } w' →
      Ensures (platform m p Alone) Q (f { ret := fd.val, stored := [] }) w') :
    Ensures (platform m p Alone) Q ((ece391_open name).bind f) w := by
  refine ensures_call h fun w₁ hsees hcur => ?_
  have hopens : Opens m (some name) w₁.kernel d fd := by
    obtain ⟨fs', hlookup⟩ := hname.2 w₁.kernel.fs
    refine ⟨⟨name, fs', rfl, hname.1, hlookup⟩, ?_⟩
    rw [hcur, hsees.fd_table]
    exact hfree
  obtain ⟨hpcb, hret⟩ := open_func_opens hopens (Prod.eta _).symm
  rw [if_pos hknown] at hret
  have hdir : (open_func m (some name) w₁.kernel).1.fs.dir_number = w₁.kernel.fs.dir_number := by
    rcases open_func_cases (Prod.eta (open_func m (some name) w₁.kernel)).symm with
      ⟨⟨-, -, hdir, -⟩, -⟩ | ⟨-, -, hdir, -⟩ | ⟨d', i, -, hdir, -⟩
    · exact hdir
    · exact hdir
    · exact hdir
  refine ⟨_, _, rfl, ?_⟩
  rw [hret]
  refine hrest _ ?_
  have hnext := hsees.quiet w₁.printed (open_func_quiet m (some name) w₁.kernel)
    (Function.update v.fd_table fd (openedDesc d (v.fd_table fd))) v.dir_number ?_
    fun halone => hdir.trans (hsees.dir_number halone)
  · rw [hsees.printed] at hnext ⊢
    exact hnext
  · rw [hpcb, hcur, ← hsees.fd_table, setDesc_own_table]

/-- `open` fails if there is no such name, or no descriptor is free. -/
theorem ensures_open_fails {name : Bytes} {f : ReadResult → UserProg α} (h : Sees p Alone v w)
    (hname : ¬ ConsoleName name)
    (hnone : (∀ fs, read_dentry_by_name m.img name fs = none) ∨ AllUsed v.fd_table)
    (hrest : ∀ w', Sees p Alone v w' →
      Ensures (platform m p Alone) Q (f { ret := -1, stored := [] }) w') :
    Ensures (platform m p Alone) Q ((ece391_open name).bind f) w := by
  refine ensures_call h fun w₁ hsees hcur => ?_
  refine ⟨_, _, rfl, ?_⟩
  rcases open_func_cases (Prod.eta (open_func m (some name) w₁.kernel)).symm with
    ⟨⟨hret, hpcb, hdir, -⟩, -⟩ | ⟨⟨name', heq, hconsole⟩, -⟩ | ⟨d, i, hopens, -⟩
  · rw [hret]
    refine hrest _ ?_
    have hnext := hsees.quiet w₁.printed (open_func_quiet m (some name) w₁.kernel) v.fd_table
      v.dir_number (by rw [hpcb, hsees.fd_table]) fun halone => hdir.trans (hsees.dir_number halone)
    rw [hsees.printed] at hnext ⊢
    exact hnext
  · cases heq
    exact absurd hconsole hname
  · -- an entry found and a free descriptor contradict the reason
    obtain ⟨⟨name', fs', heq, -, hlookup⟩, hge, hflag, -⟩ := hopens
    cases heq
    rcases hnone with hnone | hused
    · rw [hnone] at hlookup
      cases hlookup
    · rw [hcur, hsees.fd_table, hused i hge] at hflag
      cases hflag

/-- A descriptor on the file of inode `i`, at position `pos`. -/
def fileDesc (i pos : ℕ) : FileDesc :=
  { op_table_ptr := .file, inode := i, file_position := pos, flags := true }

/-- `read` of a regular file: what was asked for or what is left. -/
theorem read_func_file {k : Kernel} {fd : Fd} {i pos : ℕ} {nbytes : ℤ}
    (hdesc : (k.pcb k.cur_pid).fd_table fd = fileDesc i pos) (hgood : GoodInode m.img i)
    (hi : i < m.img.num_inodes) (hpos : pos ≤ m.img.length i) (h0 : 0 ≤ nbytes)
    (hlt : nbytes < 2 ^ 31) :
    read_func m fd.val localArray nbytes k =
      some (setDesc k.cur_pid fd
          (fileDesc i (pos + (piece (m.img.file i) pos nbytes.toNat).length)) k,
        { ret := (piece (m.img.file i) pos nbytes.toNat).length,
          stored := piece (m.img.file i) pos nbytes.toNat }) := by
  obtain ⟨hstored, hret⟩ := read_data_good hgood hi hpos (toUnsigned nbytes)
  have hunsigned := toUnsigned_eq h0 hlt
  have hcount : toUnsigned nbytes = nbytes.toNat := by omega
  rw [hcount] at hstored hret
  have hlength := length_piece (m.img.file i) pos nbytes.toNat
  rw [Image.length_file] at hlength
  have hresult : read_data m.img i pos nbytes.toNat =
      { ret := (piece (m.img.file i) pos nbytes.toNat).length,
        stored := piece (m.img.file i) pos nbytes.toNat } := by
    rw [show ((piece (m.img.file i) pos nbytes.toNat).length : ℤ) =
      (read_data m.img i pos nbytes.toNat).ret by rw [hret]; omega, ← hstored]
  -- the position does not wrap around
  have hmax := hgood.length_lt
  have hsize : FOUR_KB = 4096 := rfl
  have hspace : addressSpace = 2 ^ 32 := rfl
  have hmoved := toUnsigned_eq (n := (piece (m.img.file i) pos nbytes.toNat).length)
    (by omega) (by omega)
  have hnext : (pos + toUnsigned ((piece (m.img.file i) pos nbytes.toNat).length : ℤ)) %
      addressSpace = pos + (piece (m.img.file i) pos nbytes.toNat).length := by
    rw [Nat.mod_eq_of_lt (by omega)]
    omega
  rw [read_func_eq (by decide) (by rw [hdesc]; rfl), hdesc]
  show some (file_read m fd nbytes k) = _
  unfold file_read
  dsimp only
  rw [hdesc]
  dsimp only [fileDesc]
  rw [hcount, hresult]
  dsimp only
  rw [hnext]

/-- A program reads a piece of the file. -/
theorem ensures_read_file {fd : Fd} {i pos : ℕ} {nbytes : ℤ} {f : ReadResult → UserProg α}
    (h : Sees p Alone v w) (hdesc : v.fd_table fd = fileDesc i pos) (hgood : GoodInode m.img i)
    (hi : i < m.img.num_inodes) (hpos : pos ≤ m.img.length i) (h0 : 0 ≤ nbytes)
    (hlt : nbytes < 2 ^ 31)
    (hrest : ∀ w', Sees p Alone { v with
        fd_table := Function.update v.fd_table fd
          (fileDesc i (pos + (piece (m.img.file i) pos nbytes.toNat).length)) } w' →
      Ensures (platform m p Alone) Q
        (f { ret := (piece (m.img.file i) pos nbytes.toNat).length,
             stored := piece (m.img.file i) pos nbytes.toNat }) w') :
    Ensures (platform m p Alone) Q ((ece391_read fd.val nbytes).bind f) w := by
  refine ensures_call h fun w₁ hsees hcur => ?_
  have hread := read_func_file (k := w₁.kernel) (by rw [hcur, hsees.fd_table, hdesc]) hgood hi
    hpos h0 hlt
  refine ⟨{ w₁ with
      kernel := setDesc w₁.kernel.cur_pid fd
        (fileDesc i (pos + (piece (m.img.file i) pos nbytes.toNat).length)) w₁.kernel },
    _, ?_, hrest _ ?_⟩
  · rw [UserCall.perform, hread]
    rfl
  · have hsame := hsees.quiet v.printed (setDesc_quiet fd
        (fileDesc i (pos + (piece (m.img.file i) pos nbytes.toNat).length)) w₁.kernel)
      (Function.update v.fd_table fd
        (fileDesc i (pos + (piece (m.img.file i) pos nbytes.toNat).length))) v.dir_number ?_
      fun halone => hsees.dir_number halone
    · rw [← hsees.printed] at hsame ⊢
      exact hsame
    · rw [hcur, ← hsees.fd_table, setDesc_own_table]

/-- Descriptor 1 is the terminal. -/
def ToScreen (table : Fd → FileDesc) : Prop :=
  (table 1).flags = true ∧ (table 1).op_table_ptr = .stdout

/-- `write` to the terminal returns one more than it was given. -/
theorem write_func_screen {k : Kernel} {buf : Bytes} {nbytes : ℤ}
    (hscreen : ToScreen (k.pcb k.cur_pid).fd_table) (h0 : 0 ≤ nbytes) (hlt : nbytes + 1 < 2 ^ 31) :
    write_func 1 (some buf) nbytes k =
        some ((terminal_write buf nbytes k.cli).1.sti, nbytes + 1) ∧
      shown 1 buf nbytes k = bytesOf buf nbytes := by
  obtain ⟨hflag, htable⟩ := hscreen
  have hwrite : write_func 1 (some buf) nbytes k = _ := write_func_eq hflag buf
  constructor
  · have hret : (terminal_write buf nbytes k.cli).2 = nbytes + 1 := by
      unfold terminal_write
      rw [toInt32_eq (by omega)]
      omega
    rw [htable, OpTable.write, Option.map_some, hret] at hwrite
    exact hwrite
  · have hfd : ¬ ((1 : ℤ) < 0 ∨ (1 : ℤ) > MAX_FILES - 1) := by decide
    unfold shown
    rw [dif_neg hfd]
    exact if_pos ⟨hflag, htable⟩

theorem ensures_write {buf : Bytes} {nbytes : ℤ} {f : ReadResult → UserProg α}
    (h : Sees p Alone v w) (hscreen : ToScreen v.fd_table) (h0 : 0 ≤ nbytes)
    (hlt : nbytes + 1 < 2 ^ 31)
    (hrest : ∀ w', Sees p Alone { v with printed := v.printed ++ bytesOf buf nbytes } w' →
      Ensures (platform m p Alone) Q (f { ret := nbytes + 1, stored := [] }) w') :
    Ensures (platform m p Alone) Q ((ece391_write 1 buf nbytes).bind f) w := by
  refine ensures_call h fun w₁ hsees hcur => ?_
  have hto : ToScreen (w₁.kernel.pcb w₁.kernel.cur_pid).fd_table := by
    rw [hcur, hsees.fd_table]
    exact hscreen
  obtain ⟨hwrite, hshown⟩ : write_func 1 (some buf) nbytes w₁.kernel = _ ∧ _ :=
    write_func_screen hto h0 hlt
  refine ⟨{ kernel := (terminal_write buf nbytes w₁.kernel.cli).1.sti,
            printed := w₁.printed ++ shown 1 buf nbytes w₁.kernel }, _, ?_, hrest _ ?_⟩
  · rw [UserCall.perform, hwrite]
    rfl
  · refine ⟨hsees.alive.congr rfl rfl (fun _ => rfl) fun _ => rfl, hsees.fd_table, hsees.arg, ?_,
      hsees.dir_number⟩
    rw [hshown, hsees.printed]

/-- `ece391_fdputs` prints the string. -/
theorem ensures_fdputs {s : Bytes} {f : Unit → UserProg α} (h : Sees p Alone v w)
    (hscreen : ToScreen v.fd_table) (hlt : strlen s + 1 < 2 ^ 31)
    (hrest : ∀ w', Sees p Alone { v with printed := v.printed ++ text s } w' →
      Ensures (platform m p Alone) Q (f ()) w') :
    Ensures (platform m p Alone) Q ((ece391_fdputs 1 s).bind f) w := by
  have hcount : toInt32 (ece391_strlen s) = (strlen s : ℤ) := toInt32_eq (by
    show strlen s < 2 ^ 31
    omega)
  have hbytes : bytesOf s (strlen s : ℤ) = text s := by
    unfold bytesOf text Words.segment
    simp only [Int.toNat_natCast, Nat.sub_zero, Nat.zero_add]
  show Ensures _ Q ((ece391_write 1 s (toInt32 (ece391_strlen s))).bind fun _ => f ()) w
  rw [hcount]
  refine ensures_write h hscreen (by omega) (by omega) fun w' hw' => ?_
  rw [hbytes] at hw'
  exact hrest w' hw'

/-- `close` of a descriptor that `open` has given. -/
theorem ensures_close {fd : Fd} {f : ReadResult → UserProg α} (h : Sees p Alone v w)
    (hfd : 2 ≤ fd.val) (hflag : (v.fd_table fd).flags = true)
    (hclose : (v.fd_table fd).op_table_ptr.close = some 0)
    (hrest : ∀ w', Sees p Alone { v with
        fd_table := Function.update v.fd_table fd { v.fd_table fd with flags := false } } w' →
      Ensures (platform m p Alone) Q (f { ret := 0, stored := [] }) w') :
    Ensures (platform m p Alone) Q ((ece391_close fd.val).bind f) w := by
  refine ensures_call h fun w₁ hsees hcur => ?_
  have hcall : close_func fd.val w₁.kernel =
      some (setFlags w₁.kernel.cur_pid fd false w₁.kernel, 0) := by
    rw [close_func_eq hfd, hcur, hsees.fd_table, if_neg (by rw [hflag]; decide), hclose]
    rfl
  refine ⟨{ w₁ with kernel := setFlags w₁.kernel.cur_pid fd false w₁.kernel }, _, ?_, hrest _ ?_⟩
  · rw [UserCall.perform, hcall]
    rfl
  · have hsame := hsees.quiet v.printed (close_func_quiet hcall)
      (Function.update v.fd_table fd { v.fd_table fd with flags := false }) v.dir_number ?_
      fun halone => hsees.dir_number halone
    · rw [← hsees.printed] at hsame ⊢
      exact hsame
    · rw [hcur, ← hsees.fd_table, setFlags_eq_setDesc, setDesc_own_table]

/-- `close` of a descriptor that is not in use fails. -/
theorem ensures_close_fails {fd : Fd} {f : ReadResult → UserProg α} (h : Sees p Alone v w)
    (hfd : 2 ≤ fd.val) (hflag : (v.fd_table fd).flags = false)
    (hrest : ∀ w', Sees p Alone v w' →
      Ensures (platform m p Alone) Q (f { ret := -1, stored := [] }) w') :
    Ensures (platform m p Alone) Q ((ece391_close fd.val).bind f) w := by
  refine ensures_call h fun w₁ hsees hcur => ⟨w₁, { ret := -1, stored := [] }, ?_, hrest w₁ hsees⟩
  have hcall : close_func fd.val w₁.kernel = some (w₁.kernel, -1) := by
    rw [close_func_eq hfd, hcur, hsees.fd_table, if_pos hflag]
  rw [UserCall.perform, hcall]
  rfl

/-- `read` of the directory goes through the listing, if nobody else reads it. -/
theorem ensures_read_dir {fd : Fd} {nbytes : ℤ} {f : ReadResult → UserProg α}
    (h : Sees p True v w) (hflag : (v.fd_table fd).flags = true)
    (htable : (v.fd_table fd).op_table_ptr = .dir) (hle : v.dir_number ≤ m.img.num_dir_entries)
    (hends : NameEnds m.img v.dir_number)
    (hrest : ∀ w', Sees p True
        { v with dir_number := (v.dir_number + 1) % (m.img.num_dir_entries + 1) } w' →
      Ensures (platform m p True) Q (f (m.img.listing v.dir_number)) w') :
    Ensures (platform m p True) Q ((ece391_read fd.val nbytes).bind f) w := by
  refine ensures_call h fun w₁ hsees hcur => ?_
  have hdir := hsees.dir_number trivial
  have hread : read_func m fd.val localArray nbytes w₁.kernel =
      some ({ w₁.kernel with
          fs := { w₁.kernel.fs with
            dir_number := (v.dir_number + 1) % (m.img.num_dir_entries + 1) } },
        m.img.listing v.dir_number) := by
    rw [read_func_eq (by decide) (by rw [hcur, hsees.fd_table, hflag]), hcur, hsees.fd_table,
      htable]
    show (dir_read m.img w₁.kernel.fs).map _ = _
    rw [dir_read_eq (by rw [hdir]; exact hle) (by rw [hdir]; exact hends), hdir]
    rfl
  refine ⟨{ w₁ with
      kernel := { w₁.kernel with
        fs := { w₁.kernel.fs with
          dir_number := (v.dir_number + 1) % (m.img.num_dir_entries + 1) } } },
    _, ?_, hrest _ ?_⟩
  · rw [UserCall.perform, hread]
    rfl
  · exact ⟨hsees.alive.congr rfl rfl (fun _ => rfl) fun _ => rfl, hsees.fd_table, hsees.arg,
      hsees.printed, fun _ => rfl⟩

end

end Kernel391
