import Kernel391.FileStreams
import Kernel391.StandardStreams
import Kernel391.UserCalls

/-!
# `cat` and `ls` (`ece391cat.c`, `ece391ls.c`)

The two programs, and what each of their runs on the kernel prints and returns (`cat_runs`,
`ls_runs`) if other processes and the keyboard do nothing in between but what `Spares` allows.
Left out is what would close the program's files or overwrite its kernel stack: Ctrl+C while it
runs on a terminal that is not on display, an `execute` from such a terminal, and processes that
enter the kernel on a stack not their own.
-/

namespace Kernel391

open Programs Stream TransitionSystem Words

/-! ## Texts in a program -/

/-- A string constant of a program. -/
def message (chars : List Char) : Bytes := literal chars fun _ => 0

def messageBytes (chars : List Char) : List UInt8 := chars.map Char.toUInt8

theorem message_holds (chars : List Char) : HoldsBytes (message chars) (messageBytes chars) := by
  refine ⟨fun j hj => ?_, ?_⟩
  · have hj' : j < chars.length := by
      simp only [messageBytes, List.length_map] at hj
      exact hj
    simp only [message, literal, messageBytes, List.getElem?_eq_getElem hj', List.getElem_map]
  · simp only [message, literal, messageBytes, List.length_map, List.getElem?_eq_none le_rfl,
      if_pos]

theorem text_message {chars : List Char} (hlen : chars.length < addressSpace)
    (hne : (0 : UInt8) ∉ messageBytes chars) : text (message chars) = messageBytes chars := by
  refine (message_holds chars).text_eq (fun b hb h0 => hne (h0 ▸ hb)) ?_
  simp only [messageBytes, List.length_map]
  exact hlen

/-! ## The programs -/

/-- The loop of `cat`: one read, and what was read to the screen. -/
def catRound (fd : ℤ) (buf : Bytes) : UserProg (Bytes ⊕ ℤ) := do
  let cnt ← ece391_read fd 1024
  let buf := overwrite buf cnt.stored
  if cnt.ret = 0 then return .inr 0
  else if cnt.ret = -1 then do
    ece391_fdputs 1 (message "file read failed\n".toList)
    return .inr 3
  else do
    let w ← ece391_write 1 buf cnt.ret
    if w.ret = -1 then return .inr 3 else return .inl buf

/-- `main` of `ece391cat.c`; `buf` is the array as it lies on the stack. -/
def cat (buf : Bytes) : UserProg ℤ := do
  let args ← ece391_getargs 1024
  let buf := overwrite buf args.stored
  if args.ret ≠ 0 then do
    ece391_fdputs 1 (message "could not read arguments\n".toList)
    return 3
  else do
    let fd ← ece391_open buf
    if fd.ret = -1 then do
      ece391_fdputs 1 (message "file not found\n".toList)
      return 2
    else Prog.repeatUntil (catRound fd.ret) buf

/-- The loop of `ls`: one name, and a newline behind it. -/
def lsRound (fd : ℤ) (buf : Bytes) : UserProg (Bytes ⊕ ℤ) := do
  let cnt ← ece391_read fd 32
  let buf := overwrite buf cnt.stored
  if cnt.ret = 0 then return .inr 0
  else if cnt.ret = -1 then do
    ece391_fdputs 1 (message "directory entry read failed\n".toList)
    return .inr 3
  else do
    let buf := Function.update buf cnt.ret.toNat 0x0a
    let w ← ece391_write 1 buf (cnt.ret + 1)
    if w.ret = -1 then return .inr 3 else return .inl buf

/-- `main` of `ece391ls.c`. -/
def ls (buf : Bytes) : UserProg ℤ := do
  let fd ← ece391_open (message ".".toList)
  if fd.ret = -1 then do
    ece391_fdputs 1 (message "directory open failed\n".toList)
    return 2
  else Prog.repeatUntil (lsRound fd.ret) buf

/-! ## Buffers -/

/-- The buffer a read has stored its bytes in. -/
theorem bytesOf_overwrite (buf : Bytes) (stored : List UInt8) :
    bytesOf (overwrite buf stored) stored.length = stored := by
  apply List.ext_getElem
  · simp only [bytesOf, List.length_map, List.length_range, Int.toNat_natCast]
  · intro j hj hj'
    simp only [bytesOf, overwrite, List.getElem_map, List.getElem_range,
      List.getElem?_eq_getElem hj', Option.getD_some]

theorem text_ne_zero {s : Bytes} : ∀ b ∈ text s, b ≠ 0 := by
  intro b hb
  obtain ⟨j, hj, rfl⟩ := List.mem_iff_getElem.mp hb
  rw [text_getElem hj]
  rw [text_length] at hj
  exact ne_zero_of_lt_strlen hj

/-- The buffer `getargs` has filled. -/
theorem holds_argument (buf : Bytes) {arg : Bytes} {n : ℕ} (hlt : strlen arg < n) :
    HoldsBytes (overwrite buf (strncpy arg n)) (text arg) := by
  have hbyte : ∀ j < n, overwrite buf (strncpy arg n) j = if j < strlen arg then arg j else 0 := by
    intro j hj
    simp only [overwrite, strncpy, List.getElem?_map, List.getElem?_range hj, Option.map_some,
      Option.getD_some]
  refine ⟨fun j hj => ?_, ?_⟩
  · rw [text_getElem hj]
    rw [text_length] at hj
    rw [hbyte j (by omega), if_pos hj]
  · rw [text_length, hbyte _ hlt, if_neg (Nat.lt_irrefl _)]

theorem text_holds_argument (buf : Bytes) {arg : Bytes} {n : ℕ} (hlt : strlen arg < n)
    (hn : n ≤ addressSpace) : text (overwrite buf (strncpy arg n)) = text arg := by
  refine (holds_argument buf hlt).text_eq text_ne_zero ?_
  rw [text_length]
  omega

/-! ## `cat` -/

section
variable {m : Machine} {p : Pid} {Alone : Prop} {v : View} {w : UserWorld}

/-- The screen is none of the descriptors that `open` fills in. -/
theorem onScreen_update {table : Fd → FileDesc} {fd : Fd} {desc : FileDesc}
    (h : ToScreen table) (hfd : 2 ≤ fd.val) : ToScreen (Function.update table fd desc) := by
  have hne : (1 : Fd) ≠ fd := by
    rintro rfl
    exact absurd hfd (by decide)
  unfold ToScreen
  rw [Function.update_of_ne hne]
  exact h

/-- `pos` bytes of the file have been read from the descriptor and printed. -/
def Printed (m : Machine) (p : Pid) (Alone : Prop) (v : View) (fd : Fd) (i pos : ℕ)
    (w : UserWorld) : Prop :=
  Sees p Alone { v with
    fd_table := Function.update v.fd_table fd (fileDesc i pos)
    printed := v.printed ++ (m.img.file i).take pos } w

/-- One round: the next piece, or the end. -/
theorem catRound_prints {fd : Fd} {i pos : ℕ} (buf : Bytes) (hgood : GoodInode m.img i)
    (hi : i < m.img.num_inodes) (hfd : 2 ≤ fd.val) (hscreen : ToScreen v.fd_table)
    (hpos : pos ≤ m.img.length i) (h : Printed m p Alone v fd i pos w) :
    Ensures (platform m p Alone) (fun o w' =>
      (∀ buf', o = .inl buf' → ∃ pos', pos < pos' ∧ pos' ≤ m.img.length i ∧
        Printed m p Alone v fd i pos' w') ∧
      ∀ code, o = .inr code → code = 0 ∧ w'.printed = v.printed ++ m.img.file i)
      (catRound fd.val buf) w := by
  have hlength := length_piece (m.img.file i) pos (1024 : ℤ).toNat
  rw [Image.length_file] at hlength
  have hdelivers : Delivers (m.img.file i) ((m.img.file i).take pos) pos :=
    ⟨rfl, by rw [Image.length_file]; exact hpos⟩
  refine ensures_read_file h (Function.update_self ..) hgood hi hpos (by decide) (by decide)
    fun w₁ hw₁ => ?_
  rw [Function.update_idem] at hw₁
  dsimp only
  by_cases hend : pos = m.img.length i
  · -- nothing is left
    have hnone : (piece (m.img.file i) pos (1024 : ℤ).toNat).length = 0 := by omega
    rw [if_pos (by rw [hnone]; rfl)]
    refine .ret ⟨?_, ?_⟩
    · intro buf' heq
      cases heq
    · intro code heq
      cases heq
      refine ⟨rfl, hw₁.printed.trans ?_⟩
      rw [hend, ← Image.length_file, List.take_length]
  · have hsome : 0 < (piece (m.img.file i) pos (1024 : ℤ).toNat).length := by omega
    rw [if_neg (by omega), if_neg (by omega)]
    refine ensures_write hw₁ ?_ (by omega) (by omega) fun w₂ hw₂ => ?_
    · exact onScreen_update hscreen hfd
    · dsimp only
      rw [if_neg (by omega)]
      refine .ret ⟨?_, ?_⟩
      · intro buf' _
        refine ⟨pos + (piece (m.img.file i) pos (1024 : ℤ).toNat).length, by omega, by omega, ?_⟩
        dsimp only at hw₂
        rw [bytesOf_overwrite, List.append_assoc, (hdelivers.read _).got_eq] at hw₂
        exact hw₂
      · intro code heq
        cases heq

/-- The loop of `cat` prints the whole file. -/
theorem catLoop_prints {fd : Fd} {i : ℕ} (buf : Bytes) (hgood : GoodInode m.img i)
    (hi : i < m.img.num_inodes) (hfd : 2 ≤ fd.val) (hscreen : ToScreen v.fd_table)
    (h : Sees p Alone { v with fd_table := Function.update v.fd_table fd (fileDesc i 0) } w) :
    Ensures (platform m p Alone)
      (fun code w' => code = 0 ∧ w'.printed = v.printed ++ m.img.file i)
      (Prog.repeatUntil (catRound fd.val) buf) w := by
  refine Ensures.loop_of
    (fun _ w => ∃ pos ≤ m.img.length i, Printed m p Alone v fd i pos w)
    (fun _ w => m.img.length i - ((w.kernel.pcb p).fd_table fd).file_position) ?_
    ⟨0, Nat.zero_le _, ?_⟩
  · rintro buf w ⟨pos, hpos, hat⟩
    refine (catRound_prints buf hgood hi hfd hscreen hpos hat).mono fun o w' ho => ⟨?_, ?_⟩
    · intro buf' heq
      obtain ⟨pos', hlt, hpos', hat'⟩ := ho.1 buf' heq
      refine ⟨⟨pos', hpos', hat'⟩, ?_⟩
      rw [hat.fd_table, hat'.fd_table]
      dsimp only
      rw [Function.update_self, Function.update_self]
      dsimp only [fileDesc]
      omega
    · intro code heq
      exact .ret (ho.2 code heq)
  · unfold Printed
    rw [List.take_zero, List.append_nil]
    exact h

end

/-! ## Every run of `cat` -/

/-- `prog`, started as the process that runs in `k`, next to what `Spares` allows, always prints
`out` and returns `code`. -/
def Prints (m : Machine) (k : Kernel) (Alone : Prop) (prog : UserProg ℤ) (out : List UInt8)
    (code : ℤ) : Prop :=
  EveryRun (platform m k.cur_pid Alone) (fun r w => r = code ∧ w.printed = out) prog
    { kernel := k, printed := [] }

section
variable {m : Machine} {k : Kernel} {p : Pid} {Alone : Prop} {v : View} {w : UserWorld}

/-- What the running process sees when it starts. -/
def firstView (k : Kernel) : View where
  fd_table := (k.pcb k.cur_pid).fd_table
  arg := (k.pcb k.cur_pid).arg
  printed := []
  dir_number := k.fs.dir_number

theorem sees_first (h : ReachableWhere m (KeepsStacks m) k) :
    Sees k.cur_pid Alone (firstView k) { kernel := k, printed := [] } ∧
      ToScreen (firstView k).fd_table := by
  obtain ⟨F, hF⟩ := h.reachable.refines
  exact ⟨⟨⟨⟨F, hF⟩, stacksSeparate_of_run h, hF.cur_used⟩, rfl, rfl, rfl, fun _ => rfl⟩,
    (allOnConsole_of_reachable h.reachable _ hF.cur_used).screen⟩

/-- Every process in use has an argument that fits its buffer. -/
theorem argument_fits (h : Reachable m k) : strlen (k.pcb k.cur_pid).arg < 1024 := by
  have hstart : ∀ k, (system m fun _ => True).init k → ∃ hist, NotesShell m k hist := by
    rintro k ⟨mem, -, fr, e, hex⟩
    exact ⟨fun _ => argumentOf m.img m.shell fr mem.fs, mem, fr, e, hex, rfl⟩
  obtain ⟨hist, hreach⟩ : ∃ hist, (argumentSystem m).Reachable (k, hist) :=
    System.withHistory_lift hstart h
  obtain ⟨harg, hlen⟩ := argument_noted hreach
  rw [← harg, text_length] at hlen
  exact hlen

/-- A program that says why it gives up. -/
theorem ensures_message (chars : List Char) {code : ℤ} (h : Sees p Alone v w)
    (hscreen : ToScreen v.fd_table) (hlen : chars.length + 1 < 2 ^ 31)
    (hne : (0 : UInt8) ∉ messageBytes chars) :
    Ensures (platform m p Alone)
      (fun r w' => r = code ∧ w'.printed = v.printed ++ messageBytes chars)
      ((ece391_fdputs 1 (message chars)).bind fun _ => Prog.ret code) w := by
  have htext := text_message (by unfold addressSpace; omega) hne
  have hstrlen : strlen (message chars) = chars.length := by
    rw [← text_length, htext, messageBytes, List.length_map]
  refine ensures_fdputs h hscreen (by omega) fun w' hw' => .ret ⟨rfl, ?_⟩
  rw [← htext]
  exact hw'.printed

/-- The descriptor of a regular file just opened. -/
theorem openedDesc_fileDesc {d : Dentry} (h : d.file_type = 2) (old : FileDesc) :
    openedDesc d old = fileDesc d.inode 0 := by
  unfold openedDesc
  dsimp only
  rw [if_neg (by omega), if_neg (by omega), if_pos h]
  rfl

theorem firstFree_of_not_allUsed {table : Fd → FileDesc} (h : ¬ AllUsed table) :
    ∃ fd, FirstFree table fd := by
  unfold AllUsed at h
  push Not at h
  obtain ⟨fd, hfd, hflag⟩ := h
  exact exists_firstFree ⟨fd, hfd, by simpa using hflag⟩

/-- The kernel has `p`'s descriptors in use as the table has them. -/
def SameFlags (p : Pid) (table : Fd → FileDesc) (w : UserWorld) : Prop :=
  ∀ fd, ((w.kernel.pcb p).fd_table fd).flags = (table fd).flags

/-- A name that is not in the directory is not found. -/
theorem lookup_none {img : Image} {fname : Bytes} (fs : FsGlobals)
    (hno : ∀ i < img.num_dir_entries, img.name i ≠ text fname) :
    read_dentry_by_name img fname fs = none := by
  cases hlookup : read_dentry_by_name img fname fs with
  | none => rfl
  | some found =>
    obtain ⟨-, -, i, hi, -, hname⟩ := read_dentry_by_name_text hlookup
    exact absurd hname (hno i hi)

/-- No name of the console begins the argument. -/
def NotReserved (name : List UInt8) : Prop := ¬ stdinName <+: name ∧ ¬ stdoutName <+: name

instance (name : List UInt8) : Decidable (NotReserved name) := by
  unfold NotReserved
  infer_instance

/-- `open` of the name of a regular file. -/
theorem ensures_open_regular {α : Type} {Q : α → UserWorld → Prop} {fname : Bytes} {i : ℕ}
    {fd : Fd} {f : ReadResult → UserProg α} (hnamed : NamedImage m.img) (h : Sees p Alone v w)
    (hi : i < m.img.num_dir_entries) (htype : m.img.file_type i = 2)
    (hholds : HoldsBytes fname (m.img.name i)) (hres : NotReserved (m.img.name i))
    (hfirst : FirstFree v.fd_table fd)
    (hrest : ∀ w', Sees p Alone { v with
        fd_table := Function.update v.fd_table fd (fileDesc (m.img.inode i) 0) } w' →
      Ensures (platform m p Alone) Q (f { ret := fd.val, stored := [] }) w') :
    Ensures (platform m p Alone) Q ((ece391_open fname).bind f) w := by
  have hknown : (m.img.dentry i).file_type ≤ 2 := Nat.le_of_eq htype
  have hfound : Names m fname (m.img.dentry i) :=
    ⟨not_consoleName hholds hres.1 hres.2, hnamed.lookup hi (by omega) hholds⟩
  refine ensures_open h hfound hknown hfirst fun w₁ hw₁ => hrest w₁ ?_
  rw [openedDesc_fileDesc htype] at hw₁
  exact hw₁

/-- `cat` without an argument. -/
theorem cat_no_argument (buf : Bytes) (h : Sees p Alone v w) (hscreen : ToScreen v.fd_table)
    (hnil : strlen v.arg = 0) :
    Ensures (platform m p Alone) (fun r w' => r = 3 ∧
      w'.printed = v.printed ++ messageBytes "could not read arguments\n".toList) (cat buf) w := by
  refine ensures_getargs h fun w₁ hw₁ => ?_
  rw [argumentReply, if_pos (Or.inr hnil)]
  rw [if_pos (show ReadResult.failed.ret ≠ 0 by decide)]
  exact ensures_message _ hw₁ hscreen (by decide) (by decide)

/-- With an argument it goes on to open the file. -/
theorem cat_of_open {Q : ℤ → UserWorld → Prop} (buf : Bytes) (h : Sees p Alone v w)
    (hne : strlen v.arg ≠ 0)
    (hrest : ∀ w', Sees p Alone v w' → Ensures (platform m p Alone) Q
      ((ece391_open (overwrite buf (strncpy v.arg 1024))).bind fun fd =>
        if fd.ret = -1 then
          (ece391_fdputs 1 (message "file not found\n".toList)).bind fun _ => Prog.ret 2
        else Prog.repeatUntil (catRound fd.ret) (overwrite buf (strncpy v.arg 1024))) w') :
    Ensures (platform m p Alone) Q (cat buf) w := by
  refine ensures_getargs h fun w₁ hw₁ => ?_
  have hreply : argumentReply v.arg 1024 = { ret := 0, stored := strncpy v.arg 1024 } := by
    rw [argumentReply, if_neg (not_or.mpr ⟨by decide, hne⟩)]
    rfl
  rw [hreply]
  dsimp only
  rw [if_neg (by decide)]
  exact hrest w₁ hw₁

end

/-- Every run of `cat` that nothing disturbs, with the name of a regular file, prints that file
and returns 0. Without an argument, or with a name that is neither in the directory nor one of
the console's, it prints why it gives up. -/
theorem cat_runs {m : Machine} (hnamed : NamedImage m.img) (himg : GoodImage m.img) {k : Kernel}
    (h : ReachableWhere m (KeepsStacks m) k) (buf : Bytes) :
    (text (k.pcb k.cur_pid).arg = [] →
      Prints m k False (cat buf) (messageBytes "could not read arguments\n".toList) 3) ∧
    (text (k.pcb k.cur_pid).arg ≠ [] → NotReserved (text (k.pcb k.cur_pid).arg) →
      (∀ i < m.img.num_dir_entries, m.img.name i ≠ text (k.pcb k.cur_pid).arg) ∨
          AllUsed (k.pcb k.cur_pid).fd_table →
      Prints m k False (cat buf) (messageBytes "file not found\n".toList) 2) ∧
    ∀ i < m.img.num_dir_entries, m.img.name i = text (k.pcb k.cur_pid).arg →
      NotReserved (m.img.name i) → m.img.file_type i = 2 →
      ¬ AllUsed (k.pcb k.cur_pid).fd_table →
      Prints m k False (cat buf) (m.img.file (m.img.inode i)) 0 := by
  obtain ⟨hsees, hscreen⟩ : Sees k.cur_pid False (firstView k) { kernel := k, printed := [] } ∧
    ToScreen (firstView k).fd_table := sees_first h
  have hfits := argument_fits h.reachable
  have hholds := holds_argument buf hfits
  have htext := text_holds_argument buf hfits (by decide)
  refine ⟨fun hnil => ?_, fun hne hres hnone => ?_, fun i hi hname hres htype hfree => ?_⟩
  · refine (cat_no_argument buf hsees hscreen ?_).everyRun
    rw [← text_length]
    exact congrArg List.length hnil
  · refine (cat_of_open buf hsees ?_ fun w₁ hw₁ => ?_).everyRun
    · intro hzero
      rw [← text_length] at hzero
      exact hne (List.eq_nil_of_length_eq_zero hzero)
    · refine ensures_open_fails hw₁ (not_consoleName hholds hres.1 hres.2) ?_ fun w₂ hw₂ => ?_
      · refine hnone.imp (fun hno fs => lookup_none fs fun i hi => ?_) fun hused => hused
        exact htext.symm ▸ hno i hi
      · rw [if_pos (show (-1 : ℤ) = -1 from rfl)]
        exact ensures_message "file not found\n".toList hw₂ hscreen (by decide) (by decide)
  · have hinode := himg.entries i hi htype
    obtain ⟨fd, hfirst⟩ := firstFree_of_not_allUsed hfree
    rw [← hname] at hholds
    refine (cat_of_open buf hsees ?_ fun w₁ hw₁ => ?_).everyRun
    · intro hzero
      rw [← text_length] at hzero
      exact hnamed.nonempty i hi (hname.trans (List.eq_nil_of_length_eq_zero hzero))
    · refine ensures_open_regular hnamed hw₁ hi htype hholds hres hfirst fun w₂ hw₂ => ?_
      have hfd := hfirst.1
      dsimp only
      rw [if_neg (by omega)]
      exact catLoop_prints _ (himg.inodes _ hinode) hinode hfd hscreen hw₂

/-- A process started by `shell shell`: `cat` in its place prints the file of the shell. -/
theorem cat_runs_shell : ∃ k, ReachableWhere sampleMachine (KeepsStacks sampleMachine) k ∧
    (sampleMachine.img.file (sampleMachine.img.inode 0)).length = 28 ∧
    Prints sampleMachine k False (cat fun _ => 0)
      (sampleMachine.img.file (sampleMachine.img.inode 0)) 0 := by
  have hrun : (step sampleMachine sampleKernel
      (.execute (message "shell shell".toList) sampleFrame)).any (fun r =>
        decide (text (r.1.pcb r.1.cur_pid).arg = sampleMachine.img.name 0) &&
          !((r.1.pcb r.1.cur_pid).fd_table 2).flags) = true := by
    decide +kernel
  rw [Option.any_eq_true] at hrun
  obtain ⟨⟨k, out⟩, hstep, hcheck⟩ := hrun
  rw [Bool.and_eq_true, decide_eq_true_eq, Bool.not_eq_true'] at hcheck
  obtain ⟨harg, hflag⟩ := hcheck
  have hreach := sampleKernel_execute hstep
  have hnamed : NamedImage sampleMachine.img :=
    ⟨by decide +kernel, by decide +kernel, by decide +kernel⟩
  refine ⟨k, hreach, by decide +kernel, ?_⟩
  refine (cat_runs hnamed sampleImage_good hreach _).2.2 0 (by decide +kernel) harg.symm
    (by decide +kernel) (by decide +kernel) fun hused => ?_
  rw [hused 2 (by decide)] at hflag
  cases hflag

/-! ## `ls` -/

/-- What `ls` prints of the first `n` entries. -/
def listed (img : Image) (n : ℕ) : List UInt8 :=
  (List.range n).flatMap fun i => img.name i ++ [0x0a]

theorem listed_succ (img : Image) (n : ℕ) :
    listed img (n + 1) = listed img n ++ (img.name n ++ [0x0a]) := by
  simp only [listed, List.range_succ, List.flatMap_append, List.flatMap_cons, List.flatMap_nil,
    List.append_nil]

/-- A name with a newline behind it. -/
theorem bytesOf_line (buf : Bytes) (name : List UInt8) (c : UInt8) :
    bytesOf (Function.update (overwrite buf name) name.length c) (name.length + 1) =
      name ++ [c] := by
  apply List.ext_getElem
  · simp only [bytesOf, List.length_map, List.length_range, List.length_append,
      List.length_singleton]
    omega
  · intro j hj hj'
    simp only [bytesOf, List.getElem_map, List.getElem_range]
    by_cases hlast : j = name.length
    · subst hlast
      rw [Function.update_self]
      exact (List.getElem_concat_length rfl _).symm
    · have hlt : j < name.length := by
        rw [List.length_append, List.length_singleton] at hj'
        omega
      rw [Function.update_of_ne hlast, List.getElem_append_left hlt, overwrite,
        List.getElem?_eq_getElem hlt, Option.getD_some]

section
variable {m : Machine} {p : Pid} {v : View} {w : UserWorld}

/-- The first `n` entries have been read and printed. -/
def Listed (m : Machine) (p : Pid) (v : View) (n : ℕ) (w : UserWorld) : Prop :=
  Sees p True { v with printed := v.printed ++ listed m.img n, dir_number := n } w

/-- One round: the next entry, or the end. -/
theorem lsRound_prints {fd : Fd} {n : ℕ} (buf : Bytes) (hnamed : NamedImage m.img)
    (hflag : (v.fd_table fd).flags = true) (htable : (v.fd_table fd).op_table_ptr = .dir)
    (hscreen : ToScreen v.fd_table) (hn : n ≤ m.img.num_dir_entries) (h : Listed m p v n w) :
    Ensures (platform m p True) (fun o w' =>
      (∀ buf', o = .inl buf' → n < m.img.num_dir_entries ∧ Listed m p v (n + 1) w') ∧
      ∀ code, o = .inr code →
        code = 0 ∧ w'.printed = v.printed ++ listed m.img m.img.num_dir_entries)
      (lsRound fd.val buf) w := by
  have hends : NameEnds m.img n := by
    intro hlt
    have hshort := strlen_file_name_le (hnamed.known n hlt)
    show _ < 64
    omega
  refine ensures_read_dir h hflag htable hn hends fun w₁ hw₁ => ?_
  dsimp only at hw₁ ⊢
  by_cases hlast : n = m.img.num_dir_entries
  · have hend : m.img.listing n = { ret := 0, stored := [] } := by
      unfold Image.listing
      dsimp only
      rw [if_neg (by rw [hlast, Nat.mod_eq_of_lt (Nat.lt_succ_self _)]; exact Nat.lt_irrefl _)]
    rw [hend, if_pos rfl]
    refine .ret ⟨?_, ?_⟩
    · intro buf' heq
      cases heq
    · intro code heq
      cases heq
      exact ⟨rfl, hlast ▸ hw₁.printed⟩
  · have hlt : n < m.img.num_dir_entries := by omega
    have hentry : m.img.listing n = { ret := (m.img.name n).length, stored := m.img.name n } := by
      unfold Image.listing
      dsimp only
      rw [Nat.mod_eq_of_lt (by omega), if_pos hlt]
    have hpos := List.length_pos_of_ne_nil (hnamed.nonempty n hlt)
    have hle := length_name_le m.img n
    rw [Nat.mod_eq_of_lt (by omega)] at hw₁
    rw [hentry]
    dsimp only
    rw [if_neg (by omega), if_neg (by omega), Int.toNat_natCast]
    refine ensures_write hw₁ hscreen (by omega) (by omega) fun w₂ hw₂ => ?_
    dsimp only at hw₂ ⊢
    rw [bytesOf_line, List.append_assoc, ← listed_succ] at hw₂
    rw [if_neg (by omega)]
    refine .ret ⟨?_, ?_⟩
    · intro buf' _
      exact ⟨hlt, hw₂⟩
    · intro code heq
      cases heq

/-- The loop of `ls` prints the whole directory. -/
theorem lsLoop_prints {fd : Fd} (buf : Bytes) (hnamed : NamedImage m.img)
    (hflag : (v.fd_table fd).flags = true) (htable : (v.fd_table fd).op_table_ptr = .dir)
    (hscreen : ToScreen v.fd_table) (h : Listed m p v 0 w) :
    Ensures (platform m p True) (fun code w' =>
        code = 0 ∧ w'.printed = v.printed ++ listed m.img m.img.num_dir_entries)
      (Prog.repeatUntil (lsRound fd.val) buf) w := by
  refine Ensures.loop_of
    (fun _ w => ∃ n ≤ m.img.num_dir_entries, Listed m p v n w)
    (fun _ w => m.img.num_dir_entries - w.kernel.fs.dir_number) ?_ ⟨0, Nat.zero_le _, h⟩
  rintro buf w ⟨n, hn, hat⟩
  refine (lsRound_prints buf hnamed hflag htable hscreen hn hat).mono fun o w' ho => ⟨?_, ?_⟩
  · intro buf' heq
    obtain ⟨hlt, hat'⟩ := ho.1 buf' heq
    refine ⟨⟨n + 1, hlt, hat'⟩, ?_⟩
    rw [hat.dir_number trivial, hat'.dir_number trivial]
    dsimp only
    omega
  · intro code heq
    exact .ret (ho.2 code heq)

end

/-- Every run of `ls` that nothing disturbs, that starts with the cursor at the first entry, and
during which nobody else moves it, prints the names of all entries in order, each on a line of
its own, and returns 0. Without a directory it prints why it gives up. -/
theorem ls_runs {m : Machine} (hnamed : NamedImage m.img) {k : Kernel}
    (h : ReachableWhere m (KeepsStacks m) k) (buf : Bytes) :
    ((∀ i < m.img.num_dir_entries, m.img.name i ≠ [0x2e]) ∨ AllUsed (k.pcb k.cur_pid).fd_table →
      Prints m k True (ls buf) (messageBytes "directory open failed\n".toList) 2) ∧
    ∀ i < m.img.num_dir_entries, m.img.name i = [0x2e] → m.img.file_type i = 1 →
      ¬ AllUsed (k.pcb k.cur_pid).fd_table → k.fs.dir_number = 0 →
      Prints m k True (ls buf) (listed m.img m.img.num_dir_entries) 0 := by
  obtain ⟨hsees, hscreen⟩ : Sees k.cur_pid True (firstView k) { kernel := k, printed := [] } ∧
    ToScreen (firstView k).fd_table := sees_first h
  have htext : text (message ".".toList) = [0x2e] := text_message (by decide) (by decide)
  have hholds : HoldsBytes (message ".".toList) [0x2e] := message_holds ".".toList
  have hplain : ¬ ConsoleName (message ".".toList) :=
    not_consoleName hholds (by decide) (by decide)
  refine ⟨fun hnone => ?_, fun i hi hname htype hfree hdir => ?_⟩
  · refine (ensures_open_fails hsees hplain ?_ fun w₂ hw₂ => ?_ : Ensures _ _ (ls buf) _).everyRun
    · exact hnone.imp (fun hno fs => lookup_none fs (htext.symm ▸ hno)) fun hused => hused
    · rw [if_pos (show (-1 : ℤ) = -1 from rfl)]
      exact ensures_message "directory open failed\n".toList hw₂ hscreen (by decide) (by decide)
  · obtain ⟨fd, hfirst⟩ := firstFree_of_not_allUsed hfree
    have hfound : Names m (message ".".toList) (m.img.dentry i) := by
      refine ⟨hplain, hnamed.lookup hi (fun hfull => ?_) (hname ▸ hholds)⟩
      rw [hname] at hfull
      cases hfull
    have hknown : (m.img.dentry i).file_type ≤ 2 := by
      show m.img.file_type i ≤ 2
      omega
    refine (ensures_open hsees hfound hknown hfirst fun w₂ hw₂ => ?_ :
      Ensures _ _ (ls buf) _).everyRun
    have hfd := hfirst.1
    have hstart : Listed m k.cur_pid { firstView k with
        fd_table := Function.update (firstView k).fd_table fd
          (openedDesc (m.img.dentry i) ((firstView k).fd_table fd)) } 0 w₂ :=
      ⟨hw₂.alive, hw₂.fd_table, hw₂.arg, hw₂.printed,
        fun _ => (hw₂.dir_number trivial).trans hdir⟩
    dsimp only
    rw [if_neg (by omega)]
    refine lsLoop_prints buf hnamed ?_ ?_ ?_ hstart
    · dsimp only
      rw [Function.update_self]
      exact openedDesc_flags _ _
    · dsimp only
      rw [Function.update_self]
      exact openedDesc_dir htype _
    · exact onScreen_update hscreen hfd

/-- `ls` in the place of the first shell. -/
theorem ls_runs_directory : ∃ k, ReachableWhere directoryMachine (KeepsStacks directoryMachine) k ∧
    Prints directoryMachine k True (ls fun _ => 0) (messageBytes "shell\n.\n".toList) 0 := by
  have hrun : (execute_func directoryMachine .kernel directoryMachine.shell sampleFrame
      (boot directoryMachine sampleMemory)).any (fun r => decide (r.2 = .enterUser LOAD_START) &&
        (decide (r.1.fs.dir_number = 0) && !((r.1.pcb r.1.cur_pid).fd_table 2).flags)) =
      true := by decide +kernel
  rw [Option.any_eq_true] at hrun
  obtain ⟨⟨k, out⟩, hex, hcheck⟩ := hrun
  rw [Bool.and_eq_true, Bool.and_eq_true, decide_eq_true_eq, decide_eq_true_eq,
    Bool.not_eq_true'] at hcheck
  obtain ⟨hout, hdir, hflag⟩ := hcheck
  have hreach : ReachableWhere directoryMachine (KeepsStacks directoryMachine) k :=
    System.ReachableWhere.init ⟨sampleMemory, trivial, sampleFrame, LOAD_START, hout ▸ hex⟩
  have hlisted : listed directoryMachine.img directoryMachine.img.num_dir_entries =
      messageBytes "shell\n.\n".toList := by decide +kernel
  have hnamed : NamedImage directoryMachine.img :=
    ⟨by decide +kernel, by decide +kernel, by decide +kernel⟩
  refine ⟨k, hreach, ?_⟩
  rw [← hlisted]
  refine (ls_runs hnamed hreach _).2 1 (by decide +kernel) (by decide +kernel)
    (by decide +kernel) (fun hused => ?_) hdir
  rw [hused 2 (by decide)] at hflag
  cases hflag

end Kernel391
