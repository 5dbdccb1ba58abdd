import Kernel391.Listings
import Kernel391.Texts

/-!
# Names that are listed, and names that open

A listing cuts a name at 32 characters; `open` keeps the names `stdin` and `stdout`, and all
that begin like them, for the console, and a name of 32 characters matches an entry only if
the byte behind it, which belongs to the file type, is not zero. For the other names opening
what was listed finds the entry it was listed for.
-/

namespace Kernel391

/-- The characters of `stdin`. -/
def stdinName : List UInt8 := [0x73, 0x74, 0x64, 0x69, 0x6e]

/-- The characters of `stdout`. -/
def stdoutName : List UInt8 := [0x73, 0x74, 0x64, 0x6f, 0x75, 0x74]

/-- Entries of known types, with names that are not empty and all different. -/
structure NamedImage (img : Image) : Prop where
  distinct : ∀ i < img.num_dir_entries, ∀ j < img.num_dir_entries,
    img.name i = img.name j → i = j
  nonempty : ∀ i < img.num_dir_entries, img.name i ≠ []
  known : ∀ i < img.num_dir_entries, img.file_type i ≤ 2

/-! ## The name of an entry -/

section
variable {img : Image} {i j : ℕ} {fname : Bytes}

/-- The bytes of the file type lie behind the name. -/
theorem file_name_type (h : img.file_type i ≤ 2) :
    ((img.file_name i 32).toNat = img.file_type i) ∧ img.file_name i 33 = 0 := by
  have hword : img.file_type i = (img.file_name i 32).toNat + 2 ^ 8 * (img.file_name i 33).toNat
      + 2 ^ 16 * (img.byte (Image.dir_entry i + 32 + 2)).toNat
      + 2 ^ 24 * (img.byte (Image.dir_entry i + 32 + 3)).toNat := rfl
  refine ⟨by omega, ?_⟩
  rw [← UInt8.toNat_inj]
  show (img.file_name i 33).toNat = 0
  omega

theorem strlen_file_name_le (h : img.file_type i ≤ 2) : strlen (img.file_name i) ≤ 33 :=
  strlen_le (file_name_type h).2

theorem name_getElem (hj : j < (img.name i).length) : (img.name i)[j] = img.file_name i j := by
  simp only [Image.name, List.getElem_map, List.getElem_range]

theorem name_getElem_ne_zero (hj : j < (img.name i).length) : (img.name i)[j] ≠ 0 := by
  rw [name_getElem hj]
  rw [img.length_name] at hj
  exact ne_zero_of_lt_strlen (by omega)

theorem length_name_le (img : Image) (i : ℕ) : (img.name i).length ≤ 32 := by
  rw [img.length_name]
  exact Nat.min_le_right _ _

/-- A buffer with the name is a string of its length. -/
theorem strlen_of_holds (h : HoldsBytes fname (img.name i)) :
    strlen fname = (img.name i).length := by
  have hle := length_name_le img i
  refine strlen_eq (by unfold addressSpace; omega) (fun j hj => ?_) h.2
  rw [h.1 j hj]
  exact name_getElem_ne_zero hj

/-- What `read_dentry_by_name` expects of the length of the entry's name. -/
theorem strlen_file_name (h : img.file_type i ≤ 2)
    (hfull : (img.name i).length = 32 → img.file_type i ≠ 0) :
    (if (img.name i).length = MAX_NAME_LENGTH then (img.name i).length + 1
      else (img.name i).length) = strlen (img.file_name i) := by
  have hmax : MAX_NAME_LENGTH = 32 := rfl
  have hlen := img.length_name i
  rw [hmax] at hlen ⊢
  split_ifs with hlong
  · -- the name runs on into the type
    obtain ⟨htype, hnul⟩ := file_name_type h
    have hne := hfull hlong
    rw [hlong]
    symm
    refine strlen_eq (by unfold addressSpace; omega) (fun k hk => ?_) hnul
    by_cases hk32 : k = 32
    · intro hzero
      rw [hk32] at hzero
      rw [hzero] at htype
      exact hne htype.symm
    · exact ne_zero_of_lt_strlen (by omega)
  · omega

theorem dentryMatches_iff : dentryMatches img fname j = true ↔
    (if strlen fname = MAX_NAME_LENGTH then strlen fname + 1 else strlen fname) =
      strlen (img.file_name j) ∧ strncmp fname (img.file_name j) (strlen fname) = 0 := by
  unfold dentryMatches
  simp only [Bool.and_eq_true, decide_eq_true_eq]

/-- The entry matches its own name. -/
theorem dentryMatches_self (h : img.file_type i ≤ 2)
    (hfull : (img.name i).length = 32 → img.file_type i ≠ 0)
    (hholds : HoldsBytes fname (img.name i)) : dentryMatches img fname i = true := by
  rw [dentryMatches_iff, strlen_of_holds hholds]
  refine ⟨strlen_file_name h hfull, strncmp_eq_zero fun k hk => ?_⟩
  rw [hholds.1 k hk, name_getElem hk]

/-- An entry that matches has the string for its name. -/
theorem name_eq_text (hlen : strlen fname ≤ 32) (h : dentryMatches img fname j = true) :
    img.name j = text fname := by
  rw [dentryMatches_iff] at h
  obtain ⟨hlength, hcmp⟩ := h
  have hmax : MAX_NAME_LENGTH = 32 := rfl
  have hname := img.length_name j
  rw [hmax] at hname hlength
  have hsame : (img.name j).length = strlen fname := by
    split_ifs at hlength <;> omega
  apply List.ext_getElem
  · rw [hsame, text_length]
  · intro k hk hk'
    rw [name_getElem hk, text_getElem hk']
    rw [text_length] at hk'
    exact (eq_of_strncmp (fun j hj => Or.inl (ne_zero_of_lt_strlen hj)) hcmp hk').symm

/-- A full name of an entry of type 0 is expected to run on, and does not. -/
theorem not_dentryMatches_full (htype : img.file_type i ≤ 2) (hzero : img.file_type i = 0)
    (hlen : strlen fname = 32) : ¬ dentryMatches img fname i = true := by
  rw [dentryMatches_iff]
  rintro ⟨hlength, -⟩
  obtain ⟨hbyte, -⟩ := file_name_type htype
  have hnul : img.file_name i 32 = 0 := by
    rw [← UInt8.toNat_inj, hbyte, hzero]
    rfl
  have hshort := strlen_le hnul
  rw [if_pos (show strlen fname = MAX_NAME_LENGTH from hlen), hlen] at hlength
  omega

/-- With different names the lookup finds the entry that matches. -/
theorem lookup_of_match (hdistinct : ∀ i < img.num_dir_entries, ∀ j < img.num_dir_entries,
    img.name i = img.name j → i = j) (hi : i < img.num_dir_entries)
    (hmatch : dentryMatches img fname i = true) (hpos : strlen fname ≠ 0)
    (hle : strlen fname ≤ 32) (fs : FsGlobals) :
    ∃ fs', read_dentry_by_name img fname fs = some (img.dentry i, fs') := by
  have hmax : MAX_NAME_LENGTH = 32 := rfl
  have hfind : (List.range img.num_dir_entries).find? (fun i => dentryMatches img fname i) =
      some i := by
    cases hresult : (List.range img.num_dir_entries).find? fun i => dentryMatches img fname i with
    | none =>
      have hnone := List.find?_eq_none.mp hresult i (List.mem_range.mpr hi)
      exact absurd hmatch hnone
    | some j =>
      have hj := List.mem_range.mp (List.mem_of_find?_eq_some hresult)
      have hfound := name_eq_text hle (List.find?_some hresult)
      rw [hdistinct j hj i hi (hfound.trans (name_eq_text hle hmatch).symm)]
  unfold read_dentry_by_name
  rw [if_neg (by omega), hfind]
  exact ⟨_, rfl⟩

/-- The lookup finds the entry. -/
theorem NamedImage.lookup (himg : NamedImage img) (hi : i < img.num_dir_entries)
    (hfull : (img.name i).length = 32 → img.file_type i ≠ 0)
    (hholds : HoldsBytes fname (img.name i)) (fs : FsGlobals) :
    ∃ fs', read_dentry_by_name img fname fs = some (img.dentry i, fs') := by
  have hlen := strlen_of_holds hholds
  have hle := length_name_le img i
  have hne : (img.name i).length ≠ 0 := fun h0 =>
    himg.nonempty i hi (List.eq_nil_of_length_eq_zero h0)
  exact lookup_of_match himg.distinct hi (dentryMatches_self (himg.known i hi) hfull hholds)
    (by omega) (by omega) fs

/-! ## Every lookup -/

/-- The lookup finds the entry with this name, and nothing if there is none or the name is
empty or too long. -/
def LookupExact (img : Image) (fname : Bytes) (fs : FsGlobals) : Prop :=
  (∀ i < img.num_dir_entries, img.name i = text fname → text fname ≠ [] →
    ∃ fs', read_dentry_by_name img fname fs = some (img.dentry i, fs')) ∧
  ((text fname = [] ∨ 32 < (text fname).length ∨
      ∀ i < img.num_dir_entries, img.name i ≠ text fname) →
    read_dentry_by_name img fname fs = none)

/-- A lookup that does not fail has a name of the right length, and that of an entry. -/
theorem read_dentry_by_name_text {d : Dentry} {fs fs' : FsGlobals}
    (h : read_dentry_by_name img fname fs = some (d, fs')) :
    strlen fname ≠ 0 ∧ strlen fname ≤ 32 ∧
      ∃ i < img.num_dir_entries, dentryMatches img fname i = true ∧ img.name i = text fname := by
  have hmax : MAX_NAME_LENGTH = 32 := rfl
  have hlen : strlen fname ≠ 0 ∧ strlen fname ≤ 32 := by
    unfold read_dentry_by_name at h
    split_ifs at h with hbad
    omega
  obtain ⟨⟨i, hi, -, hmatch⟩, -⟩ := read_dentry_by_name_some h
  exact ⟨hlen.1, hlen.2, i, hi, hmatch, name_eq_text hlen.2 hmatch⟩

/-- Among entries of known types with different names a lookup is exact if and only if it is
not for a full name of an entry of type 0. -/
theorem lookup_exact_iff (hdistinct : ∀ i < img.num_dir_entries, ∀ j < img.num_dir_entries,
    img.name i = img.name j → i = j) (hknown : ∀ i < img.num_dir_entries, img.file_type i ≤ 2)
    (hfname : Terminated fname) (fs : FsGlobals) :
    LookupExact img fname fs ↔ ¬ ∃ i < img.num_dir_entries,
      img.name i = text fname ∧ (text fname).length = 32 ∧ img.file_type i = 0 := by
  constructor
  · rintro ⟨hfind, -⟩ ⟨i, hi, hname, hfull, htype⟩
    rw [text_length] at hfull
    have hne : text fname ≠ [] := by
      intro hnil
      have hlen : (text fname).length = 0 := by rw [hnil]; rfl
      rw [text_length] at hlen
      omega
    obtain ⟨fs', hlookup⟩ := hfind i hi hname hne
    obtain ⟨-, -, j, hj, hmatch, hname'⟩ := read_dentry_by_name_text hlookup
    have hji := hdistinct j hj i hi (hname'.trans hname.symm)
    rw [hji] at hmatch
    exact not_dentryMatches_full (hknown i hi) htype hfull hmatch
  · intro hnot
    refine ⟨fun i hi hname hne => ?_, fun hbad => ?_⟩
    · have hholds : HoldsBytes fname (img.name i) := hname ▸ hfname.holds
      have hlen := strlen_of_holds hholds
      have hle := length_name_le img i
      have hpos : strlen fname ≠ 0 := by
        intro hzero
        rw [← text_length] at hzero
        exact hne (List.eq_nil_of_length_eq_zero hzero)
      refine lookup_of_match hdistinct hi (dentryMatches_self (hknown i hi) ?_ hholds) hpos
        (by omega) fs
      intro hfull htype
      exact hnot ⟨i, hi, hname, hname ▸ hfull, htype⟩
    · cases hlookup : read_dentry_by_name img fname fs with
      | none => rfl
      | some found =>
        obtain ⟨d, fs'⟩ := found
        obtain ⟨hpos, hle, i, hi, -, hname⟩ := read_dentry_by_name_text hlookup
        rw [text_length] at hbad
        rcases hbad with hnil | hlong | hnone
        · rw [← text_length, hnil] at hpos
          exact absurd rfl hpos
        · omega
        · exact absurd hname (hnone i hi)

end

/-- In the image with the shell the name of the shell is looked up right. -/
theorem lookup_exact_shell : LookupExact sampleImage (literal shellName fun _ => 0)
    { dir_number := 0, inode_number := 0, f_size := 0 } := by
  refine (lookup_exact_iff ?_ ?_ ⟨5, by decide, rfl⟩ _).mpr ?_ <;> decide +kernel

/-- An image with a device under a name of 32 characters. -/
def fullNameImage : Image := listedImage (List.replicate 32 'r') 0

/-- The lookup of it fails. -/
theorem lookup_not_exact : ¬ ∀ (img : Image) (fname : Bytes) (fs : FsGlobals),
    img.num_dir_entries ≤ 63 → (∀ i < img.num_dir_entries, ∀ j < img.num_dir_entries,
      img.name i = img.name j → i = j) → (∀ i < img.num_dir_entries, img.file_type i ≤ 2) →
    Terminated fname → LookupExact img fname fs := by
  intro hall
  have hexact := hall fullNameImage (literal (List.replicate 32 'r') fun _ => 0)
    { dir_number := 0, inode_number := 0, f_size := 0 } (by decide +kernel) (by decide +kernel)
    (by decide +kernel) ⟨32, by decide, by decide +kernel⟩
  obtain ⟨fs', hlookup⟩ := hexact.1 1 (by decide +kernel) (by decide +kernel) (by decide +kernel)
  have hnone : (read_dentry_by_name fullNameImage (literal (List.replicate 32 'r') fun _ => 0)
      { dir_number := 0, inode_number := 0, f_size := 0 }).isNone = true := by
    decide +kernel
  rw [hlookup] at hnone
  cases hnone

/-! ## Console names -/

/-- A comparison with a string that has no NUL is a test for a prefix. -/
theorem isPrefix_of_strncmp {fname s : Bytes} {name reserved : List UInt8}
    (hholds : HoldsBytes fname name) (hreserved : HoldsBytes s reserved)
    (hne : ∀ b ∈ reserved, b ≠ 0) (h : strncmp fname s reserved.length = 0) :
    reserved <+: name := by
  have hs : ∀ j (hj : j < reserved.length), s j ≠ 0 := by
    intro j hj
    rw [hreserved.1 j hj]
    exact hne _ (List.getElem_mem hj)
  have heq : ∀ j, j < reserved.length → fname j = s j := fun j hj =>
    eq_of_strncmp (fun j hj => Or.inr (hs j hj)) h hj
  -- the name does not end first
  have hlen : reserved.length ≤ name.length := by
    by_contra hlt
    have hj := Nat.lt_of_not_le hlt
    exact hs _ hj ((heq _ hj).symm.trans hholds.2)
  rw [List.prefix_iff_eq_take]
  apply List.ext_getElem
  · rw [List.length_take]
    omega
  · intro j hj hj'
    rw [List.getElem_take, ← hholds.1 j (by omega), heq j hj, hreserved.1 j hj]

theorem literal_stdin :
    HoldsBytes (literal ['s', 't', 'd', 'i', 'n'] fun _ => 0) stdinName :=
  ⟨by decide, by decide⟩

theorem literal_stdout :
    HoldsBytes (literal ['s', 't', 'd', 'o', 'u', 't'] fun _ => 0) stdoutName :=
  ⟨by decide, by decide⟩

theorem not_consoleName {fname : Bytes} {name : List UInt8} (hholds : HoldsBytes fname name)
    (hin : ¬ stdinName <+: name) (hout : ¬ stdoutName <+: name) : ¬ ConsoleName fname := by
  rintro (h | h)
  · exact hin (isPrefix_of_strncmp hholds literal_stdin (by decide +kernel) h)
  · exact hout (isPrefix_of_strncmp hholds literal_stdout (by decide +kernel) h)

/-! ## Opening what was listed -/

/-- The operations for a file type. -/
def tableFor (file_type : ℕ) : OpTable :=
  if file_type = 0 then .rtc else if file_type = 1 then .dir else .file

theorem openedDesc_tableFor {d : Dentry} (h : d.file_type ≤ 2) (old : FileDesc) :
    (openedDesc d old).op_table_ptr = tableFor d.file_type := by
  unfold openedDesc tableFor
  dsimp only
  split_ifs
  · rfl
  · rfl
  · rfl
  · omega

theorem exists_firstFree {table : Fd → FileDesc}
    (h : ∃ fd : Fd, 2 ≤ fd.val ∧ (table fd).flags = false) : ∃ fd, FirstFree table fd := by
  obtain ⟨fd, hfd, hfree⟩ := h
  cases hfind : (List.finRange MAX_FILES).find? fun fd =>
      decide (2 ≤ fd.val) && !(table fd).flags with
  | none =>
    rw [find_desc_eq_none hfind fd hfd] at hfree
    cases hfree
  | some fd => exact ⟨fd, find_desc_eq_some hfind⟩

/-- Entry `i` is listed, and in any state of the kernel in which the running process has a
free descriptor, `open` gives it one for the entry when it is passed what was listed. -/
def Reopens (m : Machine) (i : ℕ) : Prop :=
  ∀ fs : FsGlobals, fs.dir_number = i → ∃ fs' r, dir_read m.img fs = some (fs', r) ∧
    ∀ (fname : Bytes) (k : Kernel), HoldsBytes fname r.stored →
      (∃ fd : Fd, 2 ≤ fd.val ∧ ((k.pcb k.cur_pid).fd_table fd).flags = false) →
      ∀ k' v, open_func m (some fname) k = (k', v) →
        ∃ fd : Fd, 2 ≤ fd.val ∧ v = fd.val ∧
          ((k'.pcb k.cur_pid).fd_table fd).flags = true ∧
          ((k'.pcb k.cur_pid).fd_table fd).op_table_ptr = tableFor (m.img.file_type i) ∧
          (m.img.file_type i = 2 → ((k'.pcb k.cur_pid).fd_table fd).inode = m.img.inode i)

/-- Every listed name opens its entry, except the names of the console and a full name of an
entry of type 0. -/
theorem listed_name_opens {m : Machine} (himg : NamedImage m.img) {i : ℕ}
    (hi : i < m.img.num_dir_entries) (hin : ¬ stdinName <+: m.img.name i)
    (hout : ¬ stdoutName <+: m.img.name i)
    (hfull : (m.img.name i).length = 32 → m.img.file_type i ≠ 0) : Reopens m i := by
  intro fs hfs
  have hknown := himg.known i hi
  have hends : NameEnds m.img fs.dir_number := by
    intro _
    have hshort := strlen_file_name_le hknown
    rw [hfs]
    show _ < 64
    omega
  refine ⟨_, _, dir_read_eq (by omega) hends, fun fname k hholds hfree k' v hopen => ?_⟩
  have hlisted : (m.img.listing fs.dir_number).stored = m.img.name i := by
    unfold Image.listing
    dsimp only
    rw [hfs, Nat.mod_eq_of_lt (by omega), if_pos hi]
  rw [hlisted] at hholds
  obtain ⟨fs', hlookup⟩ := himg.lookup hi hfull hholds k.fs
  obtain ⟨fd, hfirst⟩ := exists_firstFree hfree
  have hopens : Opens m (some fname) k (m.img.dentry i) fd :=
    ⟨⟨fname, fs', rfl, not_consoleName hholds hin hout, hlookup⟩, hfirst⟩
  obtain ⟨hpcb, hv⟩ := open_func_opens hopens hopen
  rw [if_pos (show (m.img.dentry i).file_type ≤ 2 from hknown)] at hv
  have hdesc : (k'.pcb k.cur_pid).fd_table fd =
      openedDesc (m.img.dentry i) ((k.pcb k.cur_pid).fd_table fd) := by
    rw [hpcb, setDesc_fd_table, if_pos ⟨rfl, rfl⟩]
  refine ⟨fd, hfirst.1, hv, ?_, ?_, fun htype => ?_⟩
  · rw [hdesc]
    exact openedDesc_flags _ _
  · rw [hdesc]
    exact openedDesc_tableFor hknown _
  · rw [hdesc]
    exact (openedDesc_file htype _).2

/-- The directory of two entries. -/
theorem listed_name_opens_directory : Reopens directoryMachine 1 := by
  refine listed_name_opens ⟨?_, ?_, ?_⟩ ?_ ?_ ?_ ?_ <;> decide +kernel

/-- The machine with a file named `stdin`. -/
def stdinMachine : Machine :=
  imageMachine (listedImage ['s', 't', 'd', 'i', 'n'] 2) (holdsExecutable_shell (i := 0)
    (by decide +kernel) (by decide +kernel) (by decide +kernel) (by decide +kernel))

/-- Its name opens the keyboard. -/
theorem listed_name_reserved : ¬ ∀ m : Machine, NamedImage m.img →
    ∀ i < m.img.num_dir_entries, Reopens m i := by
  intro hall
  have himg : NamedImage stdinMachine.img := by
    refine ⟨?_, ?_, ?_⟩ <;> decide +kernel
  have hreopens := hall stdinMachine himg 1 (by decide +kernel)
  obtain ⟨fs', r, hlist, hopens⟩ :=
    hreopens { dir_number := 1, inode_number := 0, f_size := 0 } rfl
  have hname : (dir_read stdinMachine.img
      { dir_number := 1, inode_number := 0, f_size := 0 }).any
      (fun x => decide (x.2.stored = stdinName)) = true := by
    decide +kernel
  rw [hlist, Option.any_some, decide_eq_true_eq] at hname
  have hholds : HoldsBytes (literal ['s', 't', 'd', 'i', 'n'] fun _ => 0) r.stored := by
    rw [hname]
    exact literal_stdin
  have hvalue : (open_func stdinMachine (some (literal ['s', 't', 'd', 'i', 'n'] fun _ => 0))
      sampleKernel).2 = 0 := by
    decide +kernel
  obtain ⟨fd, hfd, hv, -⟩ := hopens _ sampleKernel hholds ⟨2, by decide, by decide +kernel⟩ _ _ rfl
  omega

end Kernel391
