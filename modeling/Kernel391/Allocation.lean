import Kernel391.FileCalls

/-!
# Which descriptors are in use

`open` marks the smallest free descriptor in use before it looks at the type of the entry it
has found, and does not free it again when it does not know the type. As long as that does
not happen (`KnownType`), the descriptors in use are those that `open` has returned and
`close` has not released.
-/

namespace Kernel391

open TransitionSystem

/-- The call is not an `open` of process `p` that takes a descriptor for an entry of unknown
type. -/
def KnownType (m : Machine) (p : Pid) (s : Kernel × OpenFiles) (e : CallEvent) : Prop :=
  e.pid = p → ∀ filename, e.call = .open_file filename → ∀ d fd,
    Opens m filename (e.switch s.1) d fd → d.file_type ≤ 2

/-- Only the console descriptors are in use. -/
def ConsoleOnly (p : Pid) (k : Kernel) : Prop :=
  ∀ fd : Fd, ((k.pcb p).fd_table fd).flags = decide (fd.val < 2)

/-- The descriptors in use are the console's and those that the history follows. -/
structure UsedExactly (p : Pid) (s : Kernel × OpenFiles) : Prop where
  high : ∀ fd : Fd, 2 ≤ fd.val →
    (((s.1.pcb p).fd_table fd).flags = true ↔ (s.2 p fd).isSome = true)
  low : ∀ fd : Fd, fd.val < 2 → ((s.1.pcb p).fd_table fd).flags = true

section
variable {m : Machine} {B : Kernel → Prop} {s s' : Kernel × OpenFiles} {e : CallEvent} {p : Pid}

/-- A console descriptor that is in use stays so. -/
theorem flags_low_step (hs : (fileCalls m B).step s e = some s') {fd : Fd} (hfd : fd.val < 2)
    (hflag : ((s.1.pcb p).fd_table fd).flags = true) :
    ((s'.1.pcb p).fd_table fd).flags = true := by
  obtain ⟨⟨r, hperform⟩, -⟩ := fileCalls_step hs
  cases hcall : e.call with
  | open_file filename =>
    obtain ⟨v, hopen⟩ := perform_open hcall hperform
    rcases open_func_cases hopen with ⟨⟨-, hpcb, -⟩, -⟩ | ⟨-, -, -, -, i, table, -, hpcb⟩ |
      ⟨d, i, -, -, hpcb, -⟩
    · rw [hpcb]
      exact hflag
    · rw [hpcb, setDesc_fd_table]
      split_ifs
      · rfl
      · exact hflag
    · rw [hpcb, setDesc_fd_table]
      split_ifs
      · exact openedDesc_flags _ _
      · exact hflag
  | close i =>
    obtain ⟨v, hclose⟩ := perform_close hcall hperform
    rcases close_func_cases hclose with ⟨hk, -⟩ | ⟨j, -, hj, -, hk⟩
    · rw [hk]
      exact hflag
    · rw [hk, setFlags_eq_setDesc, setDesc_fd_table, if_neg]
      · exact hflag
      · rintro ⟨-, rfl⟩
        omega
  | read i buf nbytes =>
    rcases read_func_cases (perform_read hcall hperform) with ⟨hk, -⟩ | ⟨j, -, -, -, hdriver⟩
    · rw [hk]
      exact hflag
    · obtain ⟨pos, hdesc⟩ := (OpTable.read_desc hdriver p fd).1
      rw [hdesc]
      exact hflag

/-- A descriptor that `open` returns is in use, and followed. -/
theorem open_step {filename : Option Bytes} {d : Dentry} {fd : Fd}
    (hs : (fileCalls m B).step s e = some s') (hcall : e.call = .open_file filename)
    (hopens : Opens m filename (e.switch s.1) d fd) (hknown : d.file_type ≤ 2) :
    ((s'.1.pcb e.pid).fd_table fd).flags = true ∧ (s'.2 e.pid fd).isSome = true := by
  obtain ⟨⟨r, hperform⟩, hnote⟩ := fileCalls_step hs
  obtain ⟨v, hopen⟩ := perform_open hcall hperform
  obtain ⟨hpcb, hv⟩ := open_func_opens hopens hopen
  rw [if_pos hknown] at hv
  constructor
  · rw [hpcb, setDesc_fd_table, if_pos ⟨rfl, rfl⟩]
    exact openedDesc_flags _ _
  · have hge := hopens.free.1
    rw [hnote]
    unfold OpenFiles.note
    rw [hcall]
    dsimp only
    rw [hopen]
    dsimp only
    rw [hv, if_neg (by omega), OpenFiles.set, if_pos ⟨rfl, rfl⟩, hopens.foundEntry]
    rfl

/-- A descriptor that is in use is followed, and `close` releases it. -/
theorem UsedExactly.close_step (h : UsedExactly e.pid s) (htracked : AllTracked m s)
    (hs : (fileCalls m B).step s e = some s') {fd : Fd} (hcall : e.call = .close fd.val)
    (hfd : 2 ≤ fd.val) :
    ((s'.1.pcb e.pid).fd_table fd).flags = true ↔ (s'.2 e.pid fd).isSome = true := by
  obtain ⟨⟨r, hperform⟩, hnote⟩ := fileCalls_step hs
  obtain ⟨v, hclose⟩ := perform_close hcall hperform
  rw [hnote]
  unfold OpenFiles.note
  rw [hcall]
  dsimp only
  rw [hclose, Option.any_some]
  dsimp only
  rcases close_func_cases hclose with ⟨hk, hv⟩ | ⟨j, hj, -, hflag, hk⟩
  · rw [hv, hk, if_neg (by simp)]
    exact h.high fd hfd
  · obtain rfl : fd = j := Fin.ext (by exact_mod_cast hj)
    obtain ⟨o, ho⟩ := Option.isSome_iff_exists.mp ((h.high fd hfd).mp hflag)
    have hzero := (htracked _ fd o ho).close_func rfl hclose
    rw [if_pos (decide_eq_true hzero), OpenFiles.set, if_pos ⟨rfl, rfl⟩, hk,
      setFlags_eq_setDesc, setDesc_fd_table, if_pos ⟨rfl, rfl⟩]
    exact iff_of_false Bool.false_ne_true Bool.false_ne_true

/-- A read changes neither. -/
theorem read_step {fd : Fd} {buf : Word} {nbytes : ℤ} (hs : (fileCalls m B).step s e = some s')
    (hcall : e.call = .read fd.val buf nbytes) :
    ((s'.1.pcb e.pid).fd_table fd).flags = ((s.1.pcb e.pid).fd_table fd).flags ∧
      (s'.2 e.pid fd).isSome = (s.2 e.pid fd).isSome := by
  obtain ⟨⟨r, hperform⟩, -⟩ := fileCalls_step hs
  have hread := perform_read hcall hperform
  constructor
  · rcases read_func_cases hread with ⟨hk, -⟩ | ⟨j, -, -, -, hdriver⟩
    · rw [hk]
      rfl
    · obtain ⟨pos, hdesc⟩ := (OpTable.read_desc hdriver e.pid fd).1
      rw [hdesc]
      rfl
  · rw [history_of_read hs hcall hread]
    exact Option.isSome_map

/-- A descriptor that is in use after the step without being followed was so before. -/
theorem UsedExactly.step (h : UsedExactly p s) (htracked : AllTracked m s)
    (hok : KnownType m p s e) (hs : (fileCalls m B).step s e = some s') : UsedExactly p s' := by
  refine ⟨fun fd hfd => ?_, fun fd hfd => flags_low_step hs hfd (h.low fd hfd)⟩
  by_cases htouch : Touches m s.1 e p fd
  swap
  · rw [history_of_not_touches hs htouch, desc_of_not_touches hs htouch hfd]
    exact h.high fd hfd
  obtain ⟨rfl, hon | ⟨filename, d, hcall, hopens⟩⟩ := htouch
  · cases hcall : e.call with
    | open_file filename =>
      rw [hcall] at hon
      cases hon
    | close i =>
      rw [hcall] at hon
      obtain rfl : i = fd.val := hon
      exact h.close_step htracked hs hcall hfd
    | read i buf nbytes =>
      rw [hcall] at hon
      obtain rfl : i = fd.val := hon
      obtain ⟨hflags, hhistory⟩ := read_step hs hcall
      rw [hflags, hhistory]
      exact h.high fd hfd
  · obtain ⟨hused, hsome⟩ := open_step hs hcall hopens (hok rfl filename hcall d fd hopens)
    exact iff_of_true hused hsome

end

theorem UsedExactly.reachable {m : Machine} {p : Pid} {s : Kernel × OpenFiles}
    (h : (fileCalls m (ConsoleOnly p)).ReachableWhere (KnownType m p) s) :
    AllTracked m s ∧ UsedExactly p s := by
  refine h.invariant (P := fun s => AllTracked m s ∧ UsedExactly p s) (fun s h0 => ?_)
    fun s e s' _ hi hok hs => ⟨hi.1.step hs, hi.2.step hi.1 hok hs⟩
  obtain ⟨hconsole, hnone⟩ := h0
  refine ⟨fun q fd o ho => ?_, fun fd hfd => ?_, fun fd hfd => ?_⟩
  · rw [hnone] at ho
    cases ho
  · rw [hconsole fd, hnone, decide_eq_false (by omega)]
    exact iff_of_false Bool.false_ne_true Bool.false_ne_true
  · rw [hconsole fd]
    exact decide_eq_true hfd

/-- In every run in which `open` gives process `p` no descriptor for an entry of unknown type,
the descriptors `p` has in use from 2 on are those that `open` has returned and `close` has
not released; 0 and 1 stay in use; `open` returns the smallest free descriptor for a
directory entry; and a call that fails leaves the table as it was. -/
theorem descriptor_allocator {m : Machine} {p : Pid} {k : Kernel} {h : OpenFiles}
    (hreach : (fileCalls m (ConsoleOnly p)).ReachableWhere (KnownType m p) (k, h)) :
    (∀ fd : Fd, 2 ≤ fd.val → (((k.pcb p).fd_table fd).flags = true ↔ (h p fd).isSome = true)) ∧
    (∀ fd : Fd, fd.val < 2 → ((k.pcb p).fd_table fd).flags = true) ∧
    ∀ e : CallEvent, e.pid = p → KnownType m p (k, h) e → ∀ k' r,
      (∀ filename, e.call = .open_file filename → open_func m filename (e.switch k) = (k', r) →
        (r = -1 → (k'.pcb p).fd_table = (k.pcb p).fd_table) ∧
        ((∀ name, filename = some name → ¬ ConsoleName name) → r ≠ -1 →
          ∃ fd, FirstFree (k.pcb p).fd_table fd ∧ r = fd.val)) ∧
      ∀ fd, e.call = .close fd → close_func fd (e.switch k) = some (k', r) →
        r = -1 → (k'.pcb p).fd_table = (k.pcb p).fd_table := by
  obtain ⟨htracked, hused⟩ := UsedExactly.reachable hreach
  refine ⟨hused.high, hused.low, ?_⟩
  rintro e rfl hok k' r
  refine ⟨fun filename hcall hopen => ?_, fun fd hcall hclose hr => ?_⟩
  · rcases open_func_cases hopen with ⟨⟨hr, hpcb, -⟩, -⟩ | ⟨⟨name, rfl, hname⟩, hr, -⟩ |
      ⟨d, fd, hopens, -, -, -, hr⟩
    · exact ⟨fun _ => by rw [hpcb]; rfl, fun _ hne => absurd hr hne⟩
    · rw [hr]
      exact ⟨fun hne => absurd hne (by decide), fun hno => absurd hname (hno name rfl)⟩
    · rw [if_pos (hok rfl filename hcall d fd hopens)] at hr
      refine ⟨fun hne => ?_, fun _ _ => ⟨fd, hopens.free, hr⟩⟩
      omega
  · rcases close_func_cases hclose with ⟨hk, -⟩ | ⟨i, rfl, hi, hflag, -⟩
    · rw [hk]
      rfl
    · obtain ⟨o, ho⟩ := Option.isSome_iff_exists.mp ((hused.high i hi).mp hflag)
      have hzero := (htracked _ i o ho).close_func (k := e.switch k) rfl hclose
      rw [hr] at hzero
      cases hzero

/-- An image without entries of unknown type is safe. -/
theorem knownType_of_image {m : Machine}
    (h : ∀ i < m.img.num_dir_entries, m.img.file_type i ≤ 2) (p : Pid) (s : Kernel × OpenFiles)
    (e : CallEvent) : KnownType m p s e := by
  rintro - filename - d fd ⟨⟨name, fs, -, -, hlookup⟩, -⟩
  obtain ⟨⟨i, hi, hentry, -⟩, -⟩ := read_dentry_by_name_some hlookup
  have htype : d.file_type = m.img.file_type i := congrArg Dentry.file_type hentry
  rw [htype]
  exact h i hi

theorem sampleKernel_consoleOnly : ConsoleOnly 0 sampleKernel := by
  unfold ConsoleOnly
  decide +kernel

/-- The first shell opens its file twice and closes the first descriptor. -/
theorem descriptor_allocator_shell : ∃ k h,
    (fileCalls sampleMachine (ConsoleOnly 0)).ReachableWhere (KnownType sampleMachine 0) (k, h) ∧
      ((k.pcb 0).fd_table 2).flags = false ∧ ((k.pcb 0).fd_table 3).flags = true := by
  have hrun : ((fileCalls sampleMachine (ConsoleOnly 0)).runFrom (sampleKernel, fun _ _ => none)
      [shellCall (.open_file (some sampleMachine.shell)),
        shellCall (.open_file (some sampleMachine.shell)), shellCall (.close 2)]).any
      (fun s => decide ((s.2 0 2).isSome = false ∧ (s.2 0 3).isSome = true)) = true := by
    decide +kernel
  have hinit : (fileCalls sampleMachine (ConsoleOnly 0)).init (sampleKernel, fun _ _ => none) :=
    ⟨sampleKernel_consoleOnly, fun _ _ => rfl⟩
  obtain ⟨⟨k, h⟩, hany, hcheck⟩ := System.Reachable.exists_of_run hinit _ hrun
  have hreach : (fileCalls sampleMachine (ConsoleOnly 0)).ReachableWhere
      (KnownType sampleMachine 0) (k, h) :=
    System.ReachableWhere.mono hany fun s e _ => knownType_of_image (by decide +kernel) 0 s e
  have hused := (descriptor_allocator hreach).1
  refine ⟨k, h, hreach, ?_, (hused 3 (by decide)).mpr hcheck.2⟩
  rw [← Bool.not_eq_true, hused 2 (by decide), hcheck.1]
  exact Bool.false_ne_true

/-- The machine with an entry of type 7. -/
def unknownType : Machine :=
  imageMachine (listedImage ['x'] 7) (holdsExecutable_shell (i := 0) (by decide +kernel)
    (by decide +kernel) (by decide +kernel) (by decide +kernel))

/-- An `open` of that entry fails and leaves descriptor 2 in use. -/
theorem descriptor_leaked : ¬ ∀ k h, (fileCalls unknownType (ConsoleOnly 0)).Reachable (k, h) →
    ∀ fd : Fd, 2 ≤ fd.val → (((k.pcb 0).fd_table fd).flags = true ↔ (h 0 fd).isSome = true) := by
  intro hall
  have hinit : (fileCalls unknownType (ConsoleOnly 0)).init (sampleKernel, fun _ _ => none) :=
    ⟨sampleKernel_consoleOnly, fun _ _ => rfl⟩
  have hrun : ((fileCalls unknownType (ConsoleOnly 0)).runFrom (sampleKernel, fun _ _ => none)
      [shellCall (.open_file (some (literal ['x'] fun _ => 0)))]).any
      (fun s => decide (((s.1.pcb 0).fd_table 2).flags = true ∧ (s.2 0 2).isSome = false)) =
        true := by
    decide +kernel
  obtain ⟨⟨k, h⟩, hreach, hused, hnone⟩ := System.Reachable.exists_of_run hinit _ hrun
  have hsome := (hall k h hreach 2 (by decide)).mp hused
  rw [hnone] at hsome
  cases hsome

end Kernel391
