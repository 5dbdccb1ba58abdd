import Kernel391.FileCalls
import Kernel391.FileContents

/-!
# A file descriptor is a stream

On an image in order (`GoodImage`), what a process reads from a descriptor it has opened on a
regular file is the file from its start on, piece by piece, whatever other calls come in
between (`file_streams`).
-/

namespace Kernel391

open TransitionSystem Stream

/-! ## Reads that make up a stream -/

/-- The bytes of a sequence of reads. -/
def delivered (reads : List FileRead) : List UInt8 := (reads.map fun r => r.result.stored).flatten

/-- The counts they returned, added up. -/
def returned (reads : List FileRead) : ℤ := (reads.map fun r => r.result.ret).sum

theorem delivered_concat (reads : List FileRead) (r : FileRead) :
    delivered (reads ++ [r]) = delivered reads ++ r.result.stored := by
  simp only [delivered, List.map_append, List.map_cons, List.map_nil, List.flatten_append,
    List.flatten_cons, List.flatten_nil, List.append_nil]

theorem returned_concat (reads : List FileRead) (r : FileRead) :
    returned (reads ++ [r]) = returned reads + r.result.ret := by
  simp only [returned, List.map_append, List.map_cons, List.map_nil, List.sum_append,
    List.sum_cons, List.sum_nil, add_zero]

/-- A read at position `pos` returns what was asked for or what is left, and zero only if one
of the two is nothing. -/
structure RightRead (file : List UInt8) (pos : ℤ) (r : FileRead) : Prop where
  ret_eq : r.result.ret = min r.nbytes (file.length - pos)
  zero_iff : r.result.ret = 0 ↔ r.nbytes = 0 ∨ pos = file.length

/-- The reads hand the file out from its start on. -/
structure StreamOf (file : List UInt8) (reads : List FileRead) : Prop where
  nonneg : 0 ≤ returned reads
  delivers : Delivers file (delivered reads) (returned reads).toNat
  each : ∀ before r after, reads = before ++ r :: after → RightRead file (returned before) r

namespace StreamOf

variable {file : List UInt8} {reads : List FileRead}

theorem nil (file : List UInt8) : StreamOf file [] := by
  refine ⟨le_rfl, Delivers.start file, fun before r after heq => ?_⟩
  exact absurd heq.symm (List.append_ne_nil_of_right_ne_nil _ (List.cons_ne_nil _ _))

/-- The next piece. -/
theorem concat (h : StreamOf file reads) {r : FileRead} (hn : 0 ≤ r.nbytes)
    (hstored : r.result.stored = piece file (returned reads).toNat r.nbytes.toNat)
    (hret : r.result.ret = min r.nbytes (file.length - returned reads)) :
    StreamOf file (reads ++ [r]) := by
  have h0 := h.nonneg
  have hle := h.delivers.pos_le
  have hlen := length_piece file (returned reads).toNat r.nbytes.toNat
  refine ⟨?_, ?_, fun before r' after heq => ?_⟩
  · rw [returned_concat]
    omega
  · rw [delivered_concat, returned_concat, hstored]
    have hnext := h.delivers.read r.nbytes.toNat
    rw [show (returned reads + r.result.ret).toNat = (returned reads).toNat +
      (piece file (returned reads).toNat r.nbytes.toNat).length by omega]
    exact hnext
  · rcases List.eq_nil_or_concat after with rfl | ⟨after', x, rfl⟩
    · obtain ⟨rfl, hr⟩ := List.append_inj' heq rfl
      obtain rfl : r = r' := List.head_eq_of_cons_eq hr
      refine ⟨hret, ?_⟩
      rw [hret]
      omega
    · rw [List.concat_eq_append, ← List.cons_append, ← List.append_assoc] at heq
      exact h.each before r' after' (List.append_inj' heq rfl).1

end StreamOf

/-! ## Runs -/

/-- Every inode is in order, and the entries of regular files name inodes that exist. -/
structure GoodImage (img : Image) : Prop where
  inodes : ∀ inode < img.num_inodes, GoodInode img inode
  entries : ∀ i < img.num_dir_entries, img.file_type i = 2 → img.inode i < img.num_inodes

/-- The reads of a followed file are a stream, and the descriptor stands behind them. -/
structure StreamDesc (img : Image) (desc : FileDesc) (o : OpenFile) : Prop where
  stream : StreamOf (img.file o.entry.inode) o.reads
  position : (desc.file_position : ℤ) = returned o.reads

/-- The invariant of the runs. -/
structure FileStreams (m : Machine) (s : Kernel × OpenFiles) : Prop where
  tracked : AllTracked m s
  stream : ∀ p fd o, s.2 p fd = some o → o.entry.file_type = 2 →
    StreamDesc m.img ((s.1.pcb p).fd_table fd) o

section
variable {m : Machine} {fd : Fd} {desc : FileDesc} {o : OpenFile}

/-- The inode of a followed file is in order. -/
theorem Tracked.good (himg : GoodImage m.img) (h : Tracked m fd desc o.entry)
    (hfile : o.entry.file_type = 2) :
    o.entry.inode < m.img.num_inodes ∧ GoodInode m.img o.entry.inode := by
  obtain ⟨i, hi, hentry⟩ := h.entry
  have htype : m.img.file_type i = 2 := (congrArg Dentry.file_type hentry).symm.trans hfile
  have hinode : o.entry.inode = m.img.inode i := congrArg Dentry.inode hentry
  have hlt := himg.entries i hi htype
  rw [hinode]
  exact ⟨hlt, himg.inodes _ hlt⟩

/-- One read of a followed file. -/
theorem StreamDesc.read (himg : GoodImage m.img) {k k' : Kernel} {nbytes : ℤ} {r : ReadResult}
    (htracked : Tracked m fd ((k.pcb k.cur_pid).fd_table fd) o.entry)
    (hfile : o.entry.file_type = 2)
    (h : StreamDesc m.img ((k.pcb k.cur_pid).fd_table fd) o) (h0 : 0 ≤ nbytes)
    (hlt : nbytes < 2 ^ 31)
    (hread : ((k.pcb k.cur_pid).fd_table fd).op_table_ptr.read m fd nbytes k = some (k', r)) :
    StreamDesc m.img ((k'.pcb k.cur_pid).fd_table fd)
      { o with reads := o.reads ++ [{ nbytes := nbytes, result := r }] } := by
  obtain ⟨hinode, hgood⟩ := htracked.good himg hfile
  obtain ⟨htable, hdesc⟩ := openedDesc_file hfile ((k.pcb k.cur_pid).fd_table fd)
  rw [htracked.op_table_ptr, htable] at hread
  have hresult : file_read m fd nbytes k = (k', r) := Option.some.inj hread
  unfold file_read at hresult
  dsimp only at hresult
  rw [htracked.inode, hdesc, Prod.mk.injEq] at hresult
  obtain ⟨hk, hr⟩ := hresult
  have hpos := h.position
  have hstream := h.stream
  have hle := hstream.delivers.pos_le
  rw [Image.length_file] at hle
  have hwithin : ((k.pcb k.cur_pid).fd_table fd).file_position ≤ m.img.length o.entry.inode := by
    omega
  obtain ⟨hstored, hret⟩ := read_data_good hgood hinode hwithin (toUnsigned nbytes)
  have hunsigned := toUnsigned_eq h0 hlt
  have hmax := hgood.length_lt
  have hsize : FOUR_KB = 4096 := rfl
  rw [hr] at hstored hret hk
  have hcount : r.ret = min nbytes (m.img.length o.entry.inode - returned o.reads) := by
    rw [hret]
    omega
  constructor
  · refine hstream.concat h0 ?_ ?_
    · rw [hstored]
      congr 1
      · omega
      · show toUnsigned nbytes = nbytes.toNat
        omega
    · rw [Image.length_file]
      exact hcount
  · have hret' := toUnsigned_eq (n := r.ret) (by omega) (by omega)
    have hspace : addressSpace = 2 ^ 32 := rfl
    rw [← hk, setDesc_fd_table, if_pos ⟨rfl, rfl⟩, returned_concat]
    dsimp only
    rw [Nat.mod_eq_of_lt (by rw [hspace]; omega)]
    omega

end

section
variable {m : Machine} {B : Kernel → Prop} {s s' : Kernel × OpenFiles} {e : CallEvent}

theorem FileStreams.step (himg : GoodImage m.img) (h : FileStreams m s) (hok : e.call.Buffered)
    (hs : (fileCalls m B).step s e = some s') : FileStreams m s' := by
  refine ⟨h.tracked.step hs, fun p fd o' ho hfile => ?_⟩
  cases follow_of_step h.tracked hs ho with
  | kept hbefore hdesc =>
    rw [hdesc]
    exact h.stream p fd o' hbefore hfile
  | opened hp hcall hopens hknown ho' hdesc =>
    rw [hdesc, ho']
    refine ⟨StreamOf.nil _, ?_⟩
    rw [← openedDesc_start]
    rfl
  | read hp hcall hbefore hread ho' =>
    subst hp ho'
    rw [hcall] at hok
    obtain ⟨hbuf, h0, hlt⟩ := hok
    have htracked := h.tracked _ fd _ hbefore
    rw [read_func_eq (k := e.switch s.1) hbuf htracked.flags] at hread
    exact StreamDesc.read (k := e.switch s.1) himg htracked hfile
      (h.stream _ fd _ hbefore hfile) h0 hlt hread

theorem FileStreams.reachable (himg : GoodImage m.img)
    (h : (fileCalls m B).ReachableWhere (fun _ e => e.call.Buffered) s) : FileStreams m s := by
  refine h.invariant (fun s h0 => ?_) fun s e s' _ hi hok hs => hi.step himg hok hs
  constructor
  · intro p fd o ho
    rw [h0.2] at ho
    cases ho
  · intro p fd o ho
    rw [h0.2] at ho
    cases ho

end

/-- In every run, what a descriptor opened on a regular file has delivered is the start of the
file: as many bytes as its reads returned, each of which returned what was asked for or what
was left. The next read returns, and calls of other processes or on other descriptors leave
the descriptor alone. -/
theorem file_streams {m : Machine} (himg : GoodImage m.img) {k : Kernel} {h : OpenFiles}
    (hreach : (fileCalls m fun _ => True).ReachableWhere (fun _ e => e.call.Buffered) (k, h))
    {p : Pid} {fd : Fd} {o : OpenFile} (ho : h p fd = some o) (hfile : o.entry.file_type = 2) :
    (0 ≤ returned o.reads ∧
      delivered o.reads = (m.img.file o.entry.inode).take (returned o.reads).toNat ∧
      ((delivered o.reads).length : ℤ) = returned o.reads) ∧
    (∀ before r after, o.reads = before ++ r :: after →
      RightRead (m.img.file o.entry.inode) (returned before) r) ∧
    ∀ e : CallEvent, e.call.Buffered →
      ((∃ buf nbytes, e.pid = p ∧ e.call = .read fd.val buf nbytes) →
        ((fileCalls m fun _ => True).step (k, h) e).isSome) ∧
      ∀ s', ¬ (e.pid = p ∧ e.call.On fd) → (fileCalls m fun _ => True).step (k, h) e = some s' →
        s'.2 p fd = some o ∧ (s'.1.pcb p).fd_table fd = (k.pcb p).fd_table fd := by
  have hsafe := FileStreams.reachable himg hreach
  have hstream := (hsafe.stream p fd o ho hfile).stream
  have h0 := hstream.nonneg
  have hlength := hstream.delivers.length_eq
  refine ⟨⟨h0, hstream.delivers.got_eq, by omega⟩, hstream.each, fun e hok => ⟨?_, ?_⟩⟩
  · rintro ⟨buf, nbytes, rfl, hcall⟩
    have htracked := hsafe.tracked _ fd o ho
    rw [hcall] at hok
    have hread : e.call.perform m (e.switch k) =
        some (file_read m fd nbytes (e.switch k)) := by
      rw [hcall]
      show read_func m fd.val buf nbytes (e.switch k) = _
      rw [read_func_eq (k := e.switch k) hok.1 htracked.flags]
      show ((k.pcb e.pid).fd_table fd).op_table_ptr.read m fd nbytes (e.switch k) = _
      rw [htracked.op_table_ptr, (openedDesc_file hfile _).1]
      rfl
    unfold fileCalls System.withHistory
    dsimp only
    rw [hread]
    rfl
  · intro s' hoff hs
    exact hsafe.tracked.untouched hs ho hoff

theorem sampleImage_good : GoodImage sampleImage := by
  constructor
  · intro inode hinode
    have h0 : inode = 0 := by
      have hone : sampleImage.num_inodes = 1 := by decide +kernel
      omega
    rw [h0]
    exact ⟨by decide +kernel, by decide +kernel⟩
  · decide +kernel

/-- The first shell reads its own file, in two pieces. -/
theorem file_streams_shell : ∃ k h o,
    (fileCalls sampleMachine fun _ => True).ReachableWhere (fun _ e => e.call.Buffered) (k, h) ∧
      h 0 2 = some o ∧ returned o.reads = 28 ∧
      delivered o.reads = (sampleImage.file o.entry.inode).take 28 := by
  have hrun : (((fileCalls sampleMachine fun _ => True).restrict
      fun _ e => e.call.Buffered).runFrom (sampleKernel, fun _ _ => none)
      [shellCall (.open_file (some sampleMachine.shell)), shellCall (.read 2 0x8100000 4),
        shellCall (.read 2 0x8100000 100)]).any
      (fun s => decide (∃ o ∈ s.2 0 2, o.entry.file_type = 2 ∧ returned o.reads = 28)) =
        true := by
    decide +kernel
  have hinit : (fileCalls sampleMachine fun _ => True).init (sampleKernel, fun _ _ => none) :=
    ⟨trivial, fun _ _ => rfl⟩
  obtain ⟨⟨k, h⟩, hreach, o, ho, hfile, hcount⟩ :=
    System.ReachableWhere.exists_of_run hinit _ hrun
  obtain ⟨⟨-, hdelivered, -⟩, -⟩ := file_streams sampleImage_good hreach ho hfile
  rw [hcount] at hdelivered
  exact ⟨k, h, o, hreach, ho, hcount, hdelivered⟩

end Kernel391
