import Kernel391.FileCalls

/-!
# Directory listings

The cursor of a listing, `dir_number`, belongs to the driver and not to a descriptor: a read
of any directory descriptor returns the entry it stands at and moves it on. A descriptor
gets the whole directory as long as no listing is begun before the last one is at its end
(`WholeListings`).
-/

namespace Kernel391

open TransitionSystem

/-! ## What a listing should be -/

/-- The name of an entry: what comes before a NUL, and no more than 32 characters. -/
def Image.name (img : Image) (i : ℕ) : List UInt8 :=
  (List.range (min (strlen (img.file_name i)) MAX_NAME_LENGTH)).map (img.file_name i)

theorem Image.length_name (img : Image) (i : ℕ) :
    (img.name i).length = min (strlen (img.file_name i)) MAX_NAME_LENGTH := by
  rw [Image.name, List.length_map, List.length_range]

/-- The result of read `i` of a descriptor: the name of entry `i`, zero behind the last
entry, and so on from the first. -/
def Image.listing (img : Image) (i : ℕ) : ReadResult :=
  let entry := i % (img.num_dir_entries + 1)
  if entry < img.num_dir_entries then
    { ret := (img.name entry).length, stored := img.name entry }
  else { ret := 0, stored := [] }

theorem Image.listing_mod (img : Image) (i : ℕ) :
    img.listing (i % (img.num_dir_entries + 1)) = img.listing i := by
  unfold Image.listing
  rw [Nat.mod_mod]

/-- The name at the cursor has a NUL before the end of its entry. Without one it is copied
past the end of the caller's `dentry`. -/
def NameEnds (img : Image) (i : ℕ) : Prop :=
  i < img.num_dir_entries → strlen (img.file_name i) < sizeof_dentry

instance (img : Image) (i : ℕ) : Decidable (NameEnds img i) := by
  unfold NameEnds
  infer_instance

/-- The part of a string that `strncpy` copies when it is long enough. -/
theorem strncpy_eq {s : Bytes} {n : ℕ} (h : n ≤ strlen s) : strncpy s n = (List.range n).map s := by
  unfold strncpy
  apply List.map_congr_left
  intro i hi
  rw [List.mem_range] at hi
  rw [if_pos (by omega)]

/-- `dir_read` goes through the listing. -/
theorem dir_read_eq {img : Image} {fs : FsGlobals} (hle : fs.dir_number ≤ img.num_dir_entries)
    (hends : NameEnds img fs.dir_number) :
    dir_read img fs = some
      ({ fs with dir_number := (fs.dir_number + 1) % (img.num_dir_entries + 1) },
        img.listing fs.dir_number) := by
  have hmod : fs.dir_number % (img.num_dir_entries + 1) = fs.dir_number :=
    Nat.mod_eq_of_lt (by omega)
  unfold dir_read read_dentry_by_index Image.listing
  dsimp only
  rw [hmod]
  by_cases hlast : fs.dir_number ≥ img.num_dir_entries
  · have hend : fs.dir_number + 1 = img.num_dir_entries + 1 := by omega
    rw [if_pos hlast, if_neg (Nat.not_lt.mpr hlast), hend, Nat.mod_self]
  · have hlt := Nat.lt_of_not_le hlast
    have hshort := hends hlt
    have hlen := img.length_name fs.dir_number
    have hmin : (if strlen (img.file_name fs.dir_number) ≥ MAX_NAME_LENGTH then MAX_NAME_LENGTH
        else strlen (img.file_name fs.dir_number)) = (img.name fs.dir_number).length := by
      rw [hlen]
      split_ifs with hlong
      · exact (Nat.min_eq_right hlong).symm
      · exact (Nat.min_eq_left (Nat.le_of_not_le hlong)).symm
    have hmax : MAX_NAME_LENGTH = 32 := rfl
    rw [if_neg hlast, if_neg (Nat.not_le.mpr hshort), if_pos hlt]
    dsimp only
    rw [hmin, strncpy_eq (by omega), toInt32_eq (by omega),
      Nat.mod_eq_of_lt (show fs.dir_number + 1 < img.num_dir_entries + 1 by omega), hlen]
    rfl

/-! ## Runs -/

/-- Read `reads` of this descriptor is not the first of a listing. -/
def MidListing (img : Image) (o : OpenFile) : Prop :=
  o.entry.file_type = 1 ∧ o.reads.length % (img.num_dir_entries + 1) ≠ 0

/-- A read of a directory descriptor goes on with its listing, or finds the cursor at the
first entry; and the name at the cursor ends. -/
def WholeListings (m : Machine) (s : Kernel × OpenFiles) (e : CallEvent) : Prop :=
  ∀ (fd : Fd) (buf : Word) (nbytes : ℤ), e.call = .read fd.val buf nbytes → buf ≠ 0 ∧
    (((s.1.pcb e.pid).fd_table fd).flags = true →
      ((s.1.pcb e.pid).fd_table fd).op_table_ptr = .dir →
        (s.1.fs.dir_number = 0 ∨ ∃ o, s.2 e.pid fd = some o ∧ MidListing m.img o) ∧
          NameEnds m.img s.1.fs.dir_number)

/-- The cursor belongs to the only descriptor within a listing. -/
structure ListingsOk (m : Machine) (s : Kernel × OpenFiles) : Prop where
  tracked : AllTracked m s
  cursor_le : s.1.fs.dir_number ≤ m.img.num_dir_entries
  results : ∀ p fd o, s.2 p fd = some o → o.entry.file_type = 1 →
    ∀ i r, o.reads[i]? = some r → r.result = m.img.listing i
  cursor : ∀ p fd o, s.2 p fd = some o → MidListing m.img o →
    s.1.fs.dir_number = o.reads.length % (m.img.num_dir_entries + 1)
  single : ∀ p fd o q i o', s.2 p fd = some o → MidListing m.img o → s.2 q i = some o' →
    MidListing m.img o' → p = q ∧ fd = i

section
variable {m : Machine} {B : Kernel → Prop} {s s' : Kernel × OpenFiles} {e : CallEvent}

/-- The call reads a directory. -/
def ReadsDirectory (k : Kernel) (e : CallEvent) : Prop :=
  ∃ (fd : Fd) (buf : Word) (nbytes : ℤ), e.call = .read fd.val buf nbytes ∧ buf ≠ 0 ∧
    ((k.pcb e.pid).fd_table fd).flags = true ∧
    ((k.pcb e.pid).fd_table fd).op_table_ptr = .dir

/-- Other calls do not move the cursor. -/
theorem dir_number_of_not_reads (hs : (fileCalls m B).step s e = some s')
    (hno : ¬ ReadsDirectory s.1 e) : s'.1.fs.dir_number = s.1.fs.dir_number := by
  obtain ⟨⟨r, hperform⟩, -⟩ := fileCalls_step hs
  cases hcall : e.call with
  | open_file filename =>
    obtain ⟨v, hopen⟩ := perform_open hcall hperform
    rcases open_func_cases hopen with ⟨⟨-, -, hdir, -⟩, -⟩ | ⟨-, -, hdir, -⟩ |
      ⟨d, i, -, hdir, -⟩ <;>
      exact hdir
  | close i =>
    obtain ⟨v, hclose⟩ := perform_close hcall hperform
    rcases close_func_cases hclose with ⟨hk, -⟩ | ⟨j, -, -, -, hk⟩ <;>
    · rw [hk]
      rfl
  | read i buf nbytes =>
    rcases read_func_cases (perform_read hcall hperform) with ⟨hk, -⟩ |
      ⟨j, rfl, hbuf, hflag, hdriver⟩
    · rw [hk]
      rfl
    · have hnot : ((s.1.pcb e.pid).fd_table j).op_table_ptr ≠ .dir :=
        fun hdir => hno ⟨j, buf, nbytes, hcall, hbuf, hflag, hdir⟩
      have hfs := OpTable.read_fs hdriver hnot
      rw [hfs]
      rfl

/-- A descriptor with the operations of the directory was opened on one. -/
theorem Tracked.file_type_dir {fd : Fd} {desc : FileDesc} {d : Dentry} (h : Tracked m fd desc d)
    (hdir : desc.op_table_ptr = .dir) : d.file_type = 1 := by
  have hopened := h.op_table_ptr
  have hknown := h.known
  rw [hdir] at hopened
  unfold openedDesc at hopened
  dsimp only at hopened
  split_ifs at hopened with h0 h1 h2
  · exact h1
  · omega

/-- One read of a directory: it returns the entry at the cursor and moves the cursor on. -/
theorem ListingsOk.read {r : ReadResult} {fd : Fd} {buf : Word} {nbytes : ℤ}
    (h : ListingsOk m s) (hok : WholeListings m s e) (hcall : e.call = .read fd.val buf nbytes)
    (hbuf : buf ≠ 0) (hflag : ((s.1.pcb e.pid).fd_table fd).flags = true)
    (hdir : ((s.1.pcb e.pid).fd_table fd).op_table_ptr = .dir)
    (hperform : e.call.perform m (e.switch s.1) = some (s'.1, r)) :
    s'.1.fs.dir_number = (s.1.fs.dir_number + 1) % (m.img.num_dir_entries + 1) ∧
      r = m.img.listing s.1.fs.dir_number := by
  have hends := ((hok fd buf nbytes hcall).2 hflag hdir).2
  have hread := perform_read hcall hperform
  rw [read_func_eq (k := e.switch s.1) hbuf hflag] at hread
  have hdriver : (dir_read m.img s.1.fs).map (fun x => ({ e.switch s.1 with fs := x.1 }, x.2)) =
      some (s'.1, r) := by
    have htable : ((e.switch s.1).pcb (e.switch s.1).cur_pid).fd_table fd =
        (s.1.pcb e.pid).fd_table fd := rfl
    rw [htable, hdir] at hread
    exact hread
  rw [dir_read_eq h.cursor_le hends, Option.map_some, Option.some.injEq, Prod.mk.injEq] at hdriver
  exact ⟨by rw [← hdriver.1], hdriver.2.symm⟩

/-- Where the descriptor that is read stands in its listing. -/
theorem ListingsOk.place {fd : Fd} {buf : Word} {nbytes : ℤ} {o : OpenFile}
    (h : ListingsOk m s) (hok : WholeListings m s e) (hcall : e.call = .read fd.val buf nbytes)
    (ho : s.2 e.pid fd = some o) (hdir : o.entry.file_type = 1) :
    s.1.fs.dir_number = o.reads.length % (m.img.num_dir_entries + 1) := by
  have htracked := h.tracked _ fd o ho
  by_cases hmid : o.reads.length % (m.img.num_dir_entries + 1) = 0
  · have htable := htracked.op_table_ptr.trans (openedDesc_dir hdir _)
    rcases ((hok fd buf nbytes hcall).2 htracked.flags htable).1 with hzero | ⟨o', ho', -, hmid'⟩
    · rw [hzero, hmid]
    · rw [ho, Option.some.injEq] at ho'
      exact absurd (ho' ▸ hmid) hmid'
  · exact h.cursor _ fd o ho ⟨hdir, hmid⟩

/-- No descriptor but the one that is read is within a listing. -/
theorem ListingsOk.alone {p : Pid} {fd i : Fd} {buf : Word} {nbytes : ℤ} {o : OpenFile}
    (h : ListingsOk m s) (hok : WholeListings m s e) (hcall : e.call = .read i.val buf nbytes)
    (hflag : ((s.1.pcb e.pid).fd_table i).flags = true)
    (hdir : ((s.1.pcb e.pid).fd_table i).op_table_ptr = .dir)
    (hne : ¬ (p = e.pid ∧ fd = i)) (ho : s.2 p fd = some o) : ¬ MidListing m.img o := by
  intro hmid
  have hplace := h.cursor p fd o ho hmid
  rcases ((hok i buf nbytes hcall).2 hflag hdir).1 with hzero | ⟨o', ho', hmid'⟩
  · exact hmid.2 (hplace.symm.trans hzero)
  · exact hne (h.single p fd o e.pid i o' ho hmid ho' hmid')

/-- A step that reads no directory. -/
theorem ListingsOk.step_other (h : ListingsOk m s) (hok : WholeListings m s e)
    (hs : (fileCalls m B).step s e = some s') (hno : ¬ ReadsDirectory s.1 e) :
    ListingsOk m s' := by
  have hcursor := dir_number_of_not_reads hs hno
  -- a followed directory is as before, or has just been opened
  have hfollow : ∀ p fd o', s'.2 p fd = some o' → o'.entry.file_type = 1 →
      s.2 p fd = some o' ∨ o'.reads = [] := by
    intro p fd o' ho hdir
    cases follow_of_step h.tracked hs ho with
    | kept hbefore _ => exact Or.inl hbefore
    | opened _ _ _ _ ho' _ =>
      rw [ho']
      exact Or.inr rfl
    | read hp hcall hbefore _ ho' =>
      subst hp ho'
      have htracked := h.tracked _ fd _ hbefore
      have htable := htracked.op_table_ptr.trans (openedDesc_dir hdir _)
      exact absurd ⟨fd, _, _, hcall, (hok fd _ _ hcall).1, htracked.flags, htable⟩ hno
  have hmid : ∀ p fd o', s'.2 p fd = some o' → MidListing m.img o' → s.2 p fd = some o' := by
    intro p fd o' ho hmid
    refine (hfollow p fd o' ho hmid.1).resolve_right fun hnil => hmid.2 ?_
    rw [hnil]
    exact Nat.zero_mod _
  constructor
  · exact h.tracked.step hs
  · rw [hcursor]
    exact h.cursor_le
  · intro p fd o' ho hdir i r hr
    rcases hfollow p fd o' ho hdir with hbefore | hnil
    · exact h.results p fd o' hbefore hdir i r hr
    · rw [hnil] at hr
      cases hr
  · intro p fd o' ho hm
    rw [hcursor]
    exact h.cursor p fd o' (hmid p fd o' ho hm) hm
  · intro p fd o' q i o'' ho hm ho'' hm''
    exact h.single p fd o' q i o'' (hmid p fd o' ho hm) hm (hmid q i o'' ho'' hm'') hm''

/-- A step that reads a directory. -/
theorem ListingsOk.step_read (h : ListingsOk m s) (hok : WholeListings m s e)
    (hs : (fileCalls m B).step s e = some s') (hreads : ReadsDirectory s.1 e) :
    ListingsOk m s' := by
  obtain ⟨fd₀, buf, nbytes, hcall, hbuf, hflag, htable⟩ := hreads
  obtain ⟨⟨r, hperform⟩, -⟩ := fileCalls_step hs
  obtain ⟨hcursor, hr⟩ := h.read hok hcall hbuf hflag htable hperform
  have hthis := history_of_read hs hcall (perform_read hcall hperform)
  have hother : ∀ p fd, ¬ (p = e.pid ∧ fd = fd₀) → s'.2 p fd = s.2 p fd :=
    fun p fd hne => history_of_read_other hs hcall hne
  have halone : ∀ p fd o, ¬ (p = e.pid ∧ fd = fd₀) → s.2 p fd = some o →
      ¬ MidListing m.img o :=
    fun p fd o hne ho => h.alone hok hcall hflag htable hne ho
  -- the descriptor that is read was at the place of the cursor
  have hplace : ∀ o', s'.2 e.pid fd₀ = some o' → ∃ o, s.2 e.pid fd₀ = some o ∧
      o.entry.file_type = 1 ∧ s.1.fs.dir_number = o.reads.length % (m.img.num_dir_entries + 1) ∧
      o' = { o with reads := o.reads ++ [{ nbytes := nbytes, result := r }] } := by
    intro o' ho'
    rw [hthis, Option.map_eq_some_iff] at ho'
    obtain ⟨o, ho, heq⟩ := ho'
    have hdir := (h.tracked _ fd₀ o ho).file_type_dir htable
    exact ⟨o, ho, hdir, h.place hok hcall ho hdir, heq.symm⟩
  constructor
  · exact h.tracked.step hs
  · rw [hcursor]
    have hlt := Nat.mod_lt (s.1.fs.dir_number + 1)
      (show 0 < m.img.num_dir_entries + 1 from Nat.succ_pos _)
    omega
  · intro p fd o' ho hdir i r' hr'
    by_cases hne : p = e.pid ∧ fd = fd₀
    · obtain ⟨rfl, rfl⟩ := hne
      obtain ⟨o, hold, hodir, hat, rfl⟩ := hplace o' ho
      rw [List.getElem?_append] at hr'
      split_ifs at hr' with hlt
      · exact h.results _ fd o hold hodir i r' hr'
      · -- the last read
        have hi : i = o.reads.length := by
          have hbound := (List.getElem?_eq_some_iff.mp hr').1
          rw [List.length_singleton] at hbound
          omega
        rw [hi, Nat.sub_self, List.getElem?_cons_zero, Option.some.injEq] at hr'
        rw [← hr', hi, hr, hat, Image.listing_mod]
    · rw [hother p fd hne] at ho
      exact h.results p fd o' ho hdir i r' hr'
  · intro p fd o' ho hmid
    by_cases hne : p = e.pid ∧ fd = fd₀
    · obtain ⟨rfl, rfl⟩ := hne
      obtain ⟨o, -, -, hat, rfl⟩ := hplace o' ho
      rw [hcursor, hat, List.length_append, List.length_singleton, Nat.mod_add_mod]
    · rw [hother p fd hne] at ho
      exact absurd hmid (halone p fd o' hne ho)
  · intro p fd o' q i o'' ho hmid ho'' hmid''
    have hp : p = e.pid ∧ fd = fd₀ := by
      by_contra hne
      rw [hother p fd hne] at ho
      exact halone p fd o' hne ho hmid
    have hq : q = e.pid ∧ i = fd₀ := by
      by_contra hne
      rw [hother q i hne] at ho''
      exact halone q i o'' hne ho'' hmid''
    exact ⟨hp.1.trans hq.1.symm, hp.2.trans hq.2.symm⟩

theorem ListingsOk.reachable
    (h : (fileCalls m fun k => k.fs.dir_number = 0).ReachableWhere (WholeListings m) s) :
    ListingsOk m s := by
  refine h.invariant (fun s h0 => ?_) fun s e s' _ hi hok hs => ?_
  · obtain ⟨hzero, hnone⟩ := h0
    have hempty : ∀ p fd o, s.2 p fd ≠ some o := by
      intro p fd o ho
      rw [hnone] at ho
      cases ho
    refine ⟨fun p fd o ho => absurd ho (hempty p fd o), ?_, fun p fd o ho => ?_,
      fun p fd o ho => ?_, fun p fd o q i o' ho => ?_⟩
    · rw [hzero]
      exact Nat.zero_le _
    · exact absurd ho (hempty p fd o)
    · exact absurd ho (hempty p fd o)
    · exact absurd ho (hempty p fd o)
  · by_cases hreads : ReadsDirectory s.1 e
    · exact hi.step_read hok hs hreads
    · exact hi.step_other hok hs hreads

/-- In every run in which a listing is begun only while the cursor is at the first entry, the
reads of a directory descriptor have returned the names of the entries in order and then zero,
and the next one goes on with that. -/
theorem directory_listing {k : Kernel} {h : OpenFiles} {p : Pid} {fd : Fd} {o : OpenFile}
    (hreach : (fileCalls m fun k => k.fs.dir_number = 0).ReachableWhere (WholeListings m) (k, h))
    (ho : h p fd = some o) (hdir : o.entry.file_type = 1) :
    (∀ i r, o.reads[i]? = some r → r.result = m.img.listing i) ∧
      ∀ (e : CallEvent) buf nbytes, e.pid = p → e.call = .read fd.val buf nbytes →
        WholeListings m (k, h) e →
        ∃ k', e.call.perform m (e.switch k) = some (k', m.img.listing o.reads.length) := by
  have hsafe := ListingsOk.reachable hreach
  refine ⟨hsafe.results p fd o ho hdir, ?_⟩
  rintro e buf nbytes rfl hcall hok
  have htracked := hsafe.tracked _ fd o ho
  have htable := htracked.op_table_ptr.trans (openedDesc_dir hdir _)
  obtain ⟨hbuf, hwhole⟩ := hok fd buf nbytes hcall
  have hends := (hwhole htracked.flags htable).2
  have hat := hsafe.place hok hcall ho hdir
  have hread : e.call.perform m (e.switch k) =
      ((k.pcb e.pid).fd_table fd).op_table_ptr.read m fd nbytes (e.switch k) := by
    rw [hcall]
    exact read_func_eq (k := e.switch k) hbuf htracked.flags
  have hdriver : OpTable.dir.read m fd nbytes (e.switch k) =
      (dir_read m.img k.fs).map fun x => ({ e.switch k with fs := x.1 }, x.2) := rfl
  rw [hread, show ((k.pcb e.pid).fd_table fd).op_table_ptr = .dir from htable, hdriver,
    dir_read_eq hsafe.cursor_le hends, Option.map_some, ← Image.listing_mod m.img o.reads.length]
  have hat' : k.fs.dir_number = o.reads.length % (m.img.num_dir_entries + 1) := hat
  rw [← hat']
  exact ⟨_, rfl⟩

end

/-! ## A listing, and two at once -/

/-- The condition on a read of descriptor `fd`. -/
def WholeRead (m : Machine) (s : Kernel × OpenFiles) (p : Pid) (fd : Fd) (buf : Word) : Prop :=
  buf ≠ 0 ∧ (((s.1.pcb p).fd_table fd).flags = true →
    ((s.1.pcb p).fd_table fd).op_table_ptr = .dir →
      (s.1.fs.dir_number = 0 ∨ ∃ o ∈ s.2 p fd,
        o.entry.file_type = 1 ∧ o.reads.length % (m.img.num_dir_entries + 1) ≠ 0) ∧
        NameEnds m.img s.1.fs.dir_number)

instance (m : Machine) (s : Kernel × OpenFiles) (p : Pid) (fd : Fd) (buf : Word) :
    Decidable (WholeRead m s p fd buf) := by
  unfold WholeRead
  infer_instance

def FileCall.Whole (m : Machine) (s : Kernel × OpenFiles) (p : Pid) : FileCall → Prop
  | .read i buf _ => ∀ fd : Fd, (fd.val : ℤ) = i → WholeRead m s p fd buf
  | _ => True

instance (m : Machine) (s : Kernel × OpenFiles) (p : Pid) (c : FileCall) :
    Decidable (c.Whole m s p) :=
  c.casesOn (fun _ => inferInstanceAs (Decidable True))
    (fun _ => inferInstanceAs (Decidable True))
    fun i buf _ => inferInstanceAs
      (Decidable (∀ fd : Fd, (fd.val : ℤ) = i → WholeRead m s p fd buf))

theorem wholeListings_of_whole {m : Machine} {s : Kernel × OpenFiles} {e : CallEvent}
    (h : e.call.Whole m s e.pid) : WholeListings m s e := by
  intro fd buf nbytes hcall
  rw [hcall] at h
  exact h fd rfl

/-- The machine with a directory. -/
def directoryMachine : Machine :=
  imageMachine (listedImage ['.'] 1) (holdsExecutable_shell (i := 0) (by decide +kernel)
    (by decide +kernel) (by decide +kernel) (by decide +kernel))

theorem directoryMachine_init :
    (fileCalls directoryMachine fun k => k.fs.dir_number = 0).init
      (sampleKernel, fun _ _ => none) := ⟨by decide +kernel, fun _ _ => rfl⟩

/-- The first shell lists the directory. -/
theorem directory_listing_shell : ∃ k h o,
    (fileCalls directoryMachine fun k => k.fs.dir_number = 0).ReachableWhere
      (WholeListings directoryMachine) (k, h) ∧ h 0 2 = some o ∧ o.reads.length = 3 ∧
      ∀ i r, o.reads[i]? = some r → r.result = directoryMachine.img.listing i := by
  have hrun : (((fileCalls directoryMachine fun k => k.fs.dir_number = 0).restrict
      fun s e => e.call.Whole directoryMachine s e.pid).runFrom (sampleKernel, fun _ _ => none)
      [shellCall (.open_file (some (literal ['.'] fun _ => 0))),
        shellCall (.read 2 0x8100000 33), shellCall (.read 2 0x8100000 33),
        shellCall (.read 2 0x8100000 33)]).any
      (fun s => decide (∃ o ∈ s.2 0 2, o.entry.file_type = 1 ∧ o.reads.length = 3)) = true := by
    decide +kernel
  obtain ⟨⟨k, h⟩, hwhole, o, ho, hdir, hlength⟩ :=
    System.ReachableWhere.exists_of_run directoryMachine_init _ hrun
  have hreach : (fileCalls directoryMachine fun k => k.fs.dir_number = 0).ReachableWhere
      (WholeListings directoryMachine) (k, h) :=
    hwhole.mono fun s e => wholeListings_of_whole
  exact ⟨k, h, o, hreach, ho, hlength, (directory_listing hreach ho hdir).1⟩

/-- Of two descriptors read in turns, the second one's first read returns the second entry. -/
theorem listings_mixed_up : ¬ ∀ k h,
    (fileCalls directoryMachine fun k => k.fs.dir_number = 0).ReachableWhere
      (fun _ e => e.call.Buffered) (k, h) → ∀ p fd o, h p fd = some o → o.entry.file_type = 1 →
        ∀ i r, o.reads[i]? = some r → r.result = directoryMachine.img.listing i := by
  intro hall
  have hrun : (((fileCalls directoryMachine fun k => k.fs.dir_number = 0).restrict
      fun _ e => e.call.Buffered).runFrom (sampleKernel, fun _ _ => none)
      [shellCall (.open_file (some (literal ['.'] fun _ => 0))),
        shellCall (.open_file (some (literal ['.'] fun _ => 0))),
        shellCall (.read 2 0x8100000 33), shellCall (.read 3 0x8100000 33)]).any
      (fun s => decide (∃ o ∈ s.2 0 3, o.entry.file_type = 1 ∧
        ∃ r ∈ o.reads[0]?, r.result.ret = 1)) = true := by
    decide +kernel
  obtain ⟨⟨k, h⟩, hreach, o, ho, hdir, r, hr, hret⟩ :=
    System.ReachableWhere.exists_of_run directoryMachine_init _ hrun
  have hfirst := congrArg ReadResult.ret (hall k h hreach 0 3 o ho hdir 0 r hr)
  rw [hret] at hfirst
  exact absurd hfirst (by decide +kernel)

end Kernel391
