import Kernel391.Lib.Slots
import Kernel391.System

/-!
# What each operation does

One lemma for each kernel operation, which lists every way it can end together with the
state it leaves. The invariants of the later modules are derived from these and never
unfold an operation again.
-/

namespace Kernel391

/-! ## State updates -/

/-- One record of a table is replaced: a field the two records share is as it was. -/
theorem update_field {ι β γ : Type*} [DecidableEq ι] (f : β → γ) {g : ι → β} {i : ι} {b : β}
    (j : ι) (h : f b = f (g i) := by rfl) : f (Function.update g i b j) = f (g j) := by
  by_cases hj : j = i
  · rw [hj, Function.update_self, h]
  · rw [Function.update_of_ne hj]

section
variable (k : Kernel) (p q : Pid) (t u : TermId)

@[simp] theorem modPcb_pcb_self (f : Pcb → Pcb) : (k.modPcb p f).pcb p = f (k.pcb p) := by
  simp [Kernel.modPcb]

@[simp] theorem modPcb_pcb_of_ne (f : Pcb → Pcb) (h : q ≠ p) :
    (k.modPcb p f).pcb q = k.pcb q := by
  simp [Kernel.modPcb, h]

@[simp] theorem modTerm_term_self (f : TermInfo → TermInfo) :
    (k.modTerm t f).term t = f (k.term t) := by
  simp [Kernel.modTerm]

theorem modTerm_term_of_ne (f : TermInfo → TermInfo) (h : u ≠ t) :
    (k.modTerm t f).term u = k.term u := by
  simp [Kernel.modTerm, h]

theorem set_running_pid_self (next : Option Pid) :
    (k.modTerm t fun i => { i with running_pid := next }).running_pid t = next := by
  unfold Kernel.running_pid
  rw [modTerm_term_self]

theorem set_running_pid_of_ne (next : Option Pid) (h : u ≠ t) :
    (k.modTerm t fun i => { i with running_pid := next }).running_pid u = k.running_pid u := by
  unfold Kernel.running_pid
  rw [modTerm_term_of_ne _ _ _ _ h]

end

/-! ## Console routines leave the terminals' records alone -/

@[simp] theorem putc_term_eq (t : TermId) (c : UInt8) (s : Console) :
    (putc t c s).term = s.term := by
  unfold putc
  dsimp only
  split_ifs <;> rfl

@[simp] theorem puts_term_eq (t : TermId) (str : List Char) (s : Console) :
    (puts t str s).term = s.term := by
  unfold puts
  induction str generalizing s with
  | nil => rfl
  | cons c str ih => rw [List.foldl_cons, ih, putc_term_eq]

/-! ## Process numbers -/

/-- The search finds the smallest free number. -/
theorem find_free_eq_some {k : Kernel} {n : Pid}
    (h : (List.finRange MAX_PROCESSES).find? (fun i => !k.pid_array i) = some n) :
    k.pid_array n = false ∧ ∀ i < n, k.pid_array i = true := by
  obtain ⟨hn, hbefore⟩ := Slots.find?_eq_some_iff.mp h
  refine ⟨by simpa using hn, fun i hi => ?_⟩
  have hused := hbefore i hi
  simpa using hused

theorem get_available_pid_some {k k' : Kernel} {n : Pid}
    (h : get_available_pid k = (some n, k')) :
    k.pid_array n = false ∧ (∀ i < n, k.pid_array i = true) ∧
      k' = { k with pid_array := Function.update k.pid_array n true } := by
  unfold get_available_pid at h
  cases hfind : (List.finRange MAX_PROCESSES).find? fun i => !k.pid_array i with
  | none => simp [hfind] at h
  | some i =>
    simp only [hfind, Prod.mk.injEq, Option.some.injEq] at h
    obtain ⟨rfl, rfl⟩ := h
    exact ⟨(find_free_eq_some hfind).1, (find_free_eq_some hfind).2, rfl⟩

theorem get_available_pid_none {k k' : Kernel} (h : get_available_pid k = (none, k')) :
    (∀ i, k.pid_array i = true) ∧
      k' = k.modConsole (puts k.curr_term tooManyMessage) := by
  unfold get_available_pid at h
  cases hfind : (List.finRange MAX_PROCESSES).find? fun i => !k.pid_array i with
  | none =>
    simp only [hfind, Prod.mk.injEq] at h
    refine ⟨fun i => ?_, h.2.symm⟩
    have hused := List.find?_eq_none.mp hfind i (List.mem_finRange i)
    simpa using hused
  | some i => simp [hfind] at h

/-- Some number is free exactly when the search succeeds. -/
theorem get_available_pid_of_free {k : Kernel} {p : Pid} (hp : k.pid_array p = false) :
    ∃ n k', get_available_pid k = (some n, k') := by
  cases h : get_available_pid k with
  | mk r k' =>
    cases r with
    | some n => exact ⟨n, k', rfl⟩
    | none => exact absurd ((get_available_pid_none h).1 p) (by simp [hp])

/-! ## `execute` -/

/-- The PCB of a process just started. -/
def newPcb (caller : Caller) (x : Executable) (p : Pid) (fr : Frame) (k : Kernel) : Pcb :=
  let b := k.pcb p
  { fd_table := fun fd =>
      if fd = 0 then { b.fd_table 0 with op_table_ptr := .stdin, flags := true }
      else if fd = 1 then { b.fd_table 1 with op_table_ptr := .stdout, flags := true }
      else b.fd_table fd
    pid := p
    parent := k.running_pid k.curr_term
    term_id := k.curr_term
    esp := fr.esp k
    ebp := fr.ebp
    curr_esp := b.curr_esp
    curr_ebp := b.curr_ebp
    arg := strcpy b.arg x.argument
    ss0 := KERNEL_DS
    esp0 := stack_base p
    caller := caller }

/-- The kernel after process `p` has been started from `k`, with the loaded program in
`frame` and, should it run over its page, in the video memory of `console`. -/
def started (caller : Caller) (x : Executable) (p : Pid) (fr : Frame) (k : Kernel)
    (frame : Pid → Bytes) (console : Console) : Kernel where
  pid_array := Function.update k.pid_array p true
  cur_pid := p
  pcb := Function.update k.pcb p (newPcb caller x p fr k)
  term := Function.update k.term k.curr_term
    { k.term k.curr_term with
      running_pid := some p, ss0 := KERNEL_DS, esp0 := stack_base p }
  curr_term := k.curr_term
  running_term := k.curr_term
  tss := { ss0 := KERNEL_DS, esp0 := stack_base p }
  paging := remap _128MB (_8MB + p * _4MB) k.paging
  console := console
  fs := x.fs
  frame := frame
  intf := true

section
variable (caller : Caller) (x : Executable) (p q : Pid) (fr : Frame) (k : Kernel)
  (frame : Pid → Bytes) (console : Console)

@[simp] theorem started_pcb_self :
    (started caller x p fr k frame console).pcb p = newPcb caller x p fr k :=
  Function.update_self ..

theorem started_pcb_of_ne (h : q ≠ p) :
    (started caller x p fr k frame console).pcb q = k.pcb q :=
  Function.update_of_ne h ..

/-- Only descriptors 0 and 1 are set up. -/
theorem started_fd_table {fd : Fd} (h : 2 ≤ fd.val) :
    ((started caller x p fr k frame console).pcb q).fd_table fd = (k.pcb q).fd_table fd := by
  by_cases hq : q = p
  · have h0 : fd ≠ 0 := fun h0 => by rw [h0] at h; exact absurd h (by decide)
    have h1 : fd ≠ 1 := fun h1 => by rw [h1] at h; exact absurd h (by decide)
    subst hq
    rw [started_pcb_self]
    unfold newPcb
    dsimp only
    rw [if_neg h0, if_neg h1]
  · rw [started_pcb_of_ne _ _ _ _ _ _ _ _ hq]

end

theorem load_program_spec {p : Pid} {bytes : List UInt8} {k k' : Kernel}
    (h : load_program p bytes k = some k') :
    ∃ frame console, console.term = k.console.term ∧
      k' = { k with frame := frame, console := console } := by
  unfold load_program at h
  dsimp only at h
  split_ifs at h with h1 h2
  · rw [Option.some.injEq] at h
    exact ⟨_, k.console, rfl, h.symm⟩
  · rw [Option.some.injEq] at h
    subst h
    refine ⟨_, _, ?_, rfl⟩
    rfl

/-- A program that ends inside its page loads. -/
theorem load_program_isSome {p : Pid} {bytes : List UInt8} {k : Kernel}
    (h : LOAD_START + bytes.length ≤ _132MB) : (load_program p bytes k).isSome := by
  unfold load_program
  have hroom : bytes.length ≤ _132MB - LOAD_START := by omega
  simp only [if_pos hroom, Option.isSome_some]

/-- The kernel when it loads the program of process `p`. -/
def mapped (x : Executable) (p : Pid) (k : Kernel) : Kernel :=
  { k with
    fs := x.fs
    pid_array := Function.update k.pid_array p true
    cur_pid := p
    paging := remap _128MB (_8MB + p * _4MB) k.paging }

/-- Everything after the loader is stores to fields. -/
theorem start_process_eq (img : Image) (caller : Caller) (x : Executable) (p : Pid)
    (fr : Frame) (k : Kernel) :
    start_process img caller x p fr
        { k with fs := x.fs, pid_array := Function.update k.pid_array p true } =
      (load_program p (read_data img x.inode 0 x.fs.f_size).stored (mapped x p k)).map
        fun k₁ => started caller x p fr k k₁.frame k₁.console := by
  unfold start_process
  show (load_program p (read_data img x.inode 0 x.fs.f_size).stored (mapped x p k)).bind _ = _
  cases hload : load_program p (read_data img x.inode 0 x.fs.f_size).stored (mapped x p k) with
  | none => rfl
  | some k₁ =>
    obtain ⟨frame, console, -, rfl⟩ := load_program_spec hload
    rw [Option.bind_some, Option.map_some, Option.some.injEq]
    simp [mapped, started, newPcb, init_pcb, get_parent_pcb, Kernel.modPcb, Kernel.modTerm,
      Kernel.sti, Kernel.running_pid, Frame.esp]

theorem start_process_isSome (img : Image) (caller : Caller) {x : Executable} (p : Pid)
    (fr : Frame) (k : Kernel)
    (h : LOAD_START + (read_data img x.inode 0 x.fs.f_size).stored.length ≤ _132MB) :
    (start_process img caller x p fr k).isSome := by
  obtain ⟨k₁, hload⟩ := Option.isSome_iff_exists.mp
    (load_program_isSome (p := p)
      (k := Kernel.modPaging { k with cur_pid := p } (remap _128MB (_8MB + p * _4MB))) h)
  unfold start_process
  simp [hload]

/-- Every way `execute` ends, on any image. -/
theorem execute_func_on_cases {img : Image} {caller : Caller} {command : Bytes} {fr : Frame}
    {k k' : Kernel} {out : Outcome}
    (h : execute_func_on img caller command fr k = some (k', out)) :
    (∃ fs, check_command img command fr k.fs = .refuse fs ∧ out = .ret (-1) ∧
      k' = { k with fs := fs, intf := true }) ∨
    (∃ x, check_command img command fr k.fs = .accept x ∧ (∀ p, k.pid_array p = true) ∧
      out = .ret (-2) ∧ ∃ console, console.term = k.console.term ∧
        k' = { k with fs := x.fs, console := console, intf := true }) ∨
    ∃ x p, check_command img command fr k.fs = .accept x ∧
      k.pid_array p = false ∧ (∀ q < p, k.pid_array q = true) ∧
      out = .enterUser x.entry_point ∧ ∃ k₁,
        load_program p (read_data img x.inode 0 x.fs.f_size).stored (mapped x p k.cli) = some k₁ ∧
        k' = started caller x p fr k k₁.frame k₁.console := by
  unfold execute_func_on at h
  cases hcheck : check_command img command fr k.fs with
  | refuse fs =>
    simp only [Kernel.cli, hcheck, Option.some.injEq, Prod.mk.injEq] at h
    exact Or.inl ⟨fs, rfl, h.2.symm, h.1.symm⟩
  | overrun => simp [Kernel.cli, hcheck] at h
  | accept x =>
    simp only [Kernel.cli, hcheck] at h
    cases hget : get_available_pid { k with intf := false, fs := x.fs } with
    | mk r k₁ =>
      rw [hget] at h
      cases r with
      | none =>
        obtain ⟨hfull, hk₁⟩ := get_available_pid_none hget
        simp only [Option.some.injEq, Prod.mk.injEq] at h
        refine Or.inr (Or.inl ⟨x, rfl, hfull, h.2.symm,
          puts k.curr_term tooManyMessage k.console, ?_, ?_⟩)
        · exact puts_term_eq k.curr_term tooManyMessage k.console
        · rw [← h.1, hk₁]
          simp only [Kernel.modConsole, Kernel.sti]
      | some p =>
        obtain ⟨hfree, hmin, hk₁⟩ := get_available_pid_some hget
        simp only [Option.map_eq_some_iff, Prod.mk.injEq] at h
        obtain ⟨k₂, hstart, rfl, rfl⟩ := h
        rw [hk₁] at hstart
        have heq := start_process_eq img caller x p fr k.cli
        obtain ⟨k₃, hload, hk₂⟩ := Option.map_eq_some_iff.mp (heq.symm.trans hstart)
        exact Or.inr (Or.inr ⟨x, p, rfl, hfree, hmin, rfl, k₃, hload, hk₂.symm⟩)

/-- Every way `execute` ends. -/
theorem execute_func_cases {m : Machine} {caller : Caller} {command : Bytes} {fr : Frame}
    {k k' : Kernel} {out : Outcome} (h : execute_func m caller command fr k = some (k', out)) :
    (∃ fs, check_command m.img command fr k.fs = .refuse fs ∧ out = .ret (-1) ∧
      k' = { k with fs := fs, intf := true }) ∨
    (∃ x, check_command m.img command fr k.fs = .accept x ∧ (∀ p, k.pid_array p = true) ∧
      out = .ret (-2) ∧ ∃ console, console.term = k.console.term ∧
        k' = { k with fs := x.fs, console := console, intf := true }) ∨
    ∃ x p, check_command m.img command fr k.fs = .accept x ∧
      k.pid_array p = false ∧ (∀ q < p, k.pid_array q = true) ∧
      out = .enterUser x.entry_point ∧ ∃ frame console, console.term = k.console.term ∧
        k' = started caller x p fr k frame console := by
  unfold execute_func at h
  rcases execute_func_on_cases h with hrefuse | hfull | ⟨x, p, hcheck, hfree, hmin, hout, k₁,
    hload, hk'⟩
  · exact Or.inl hrefuse
  · exact Or.inr (Or.inl hfull)
  · obtain ⟨frame, console, hterm, rfl⟩ := load_program_spec hload
    exact Or.inr (Or.inr ⟨x, p, hcheck, hfree, hmin, hout, frame, console, hterm, hk'⟩)

/-! ## Descriptors -/

/-- The descriptor table after the descriptors marked in `flags` have been closed; `close`
never touches 0 and 1. -/
def closedTable (flags : Fd → Bool) (table : Fd → FileDesc) : Fd → FileDesc := fun fd =>
  if 2 ≤ fd.val ∧ flags fd then { table fd with flags := false } else table fd

/-- With nothing marked, no descriptor changes. -/
theorem closedTable_eq_self {flags : Fd → Bool} (table : Fd → FileDesc)
    (h : ∀ fd, 2 ≤ fd.val → flags fd = false) : closedTable flags table = table := by
  funext fd
  unfold closedTable
  rw [if_neg]
  intro hfd
  rw [h fd hfd.1] at hfd
  exact absurd hfd.2 (by simp)

/-- Put `table` in the PCB of `p`. -/
def setTable (p : Pid) (table : Fd → FileDesc) (k : Kernel) : Kernel :=
  k.modPcb p fun b => { b with fd_table := table }

theorem close_func_out {fd : ℤ} (h : fd < 2 ∨ fd > MAX_FILES - 1) (k : Kernel) :
    close_func fd k = some (k, -1) := by
  unfold close_func
  rw [dif_pos h]

theorem close_func_eq {i : Fd} (h2 : 2 ≤ i.val) (k : Kernel) :
    close_func i.val k =
      if ((k.pcb k.cur_pid).fd_table i).flags = false then some (k, -1)
      else ((k.pcb k.cur_pid).fd_table i).op_table_ptr.close.map fun r =>
        (setFlags k.cur_pid i false k, if r ≠ 0 then -1 else 0) := by
  have hfd : ¬ ((i.val : ℤ) < 2 ∨ (i.val : ℤ) > MAX_FILES - 1) := by
    have hlt := i.isLt
    simp only [MAX_FILES] at hlt ⊢
    omega
  have hi : (⟨(i.val : ℤ).toNat, by simp⟩ : Fd) = i := by simp
  unfold close_func
  rw [dif_neg hfd]
  simp only [hi]
  cases ((k.pcb k.cur_pid).fd_table i).op_table_ptr.close <;> rfl

/-- Every way `close` ends. -/
theorem close_func_cases {fd : ℤ} {k k' : Kernel} {r : ℤ} (h : close_func fd k = some (k', r)) :
    (k' = k ∧ r = -1) ∨
    ∃ i : Fd, fd = i.val ∧ 2 ≤ i.val ∧ ((k.pcb k.cur_pid).fd_table i).flags = true ∧
      k' = setFlags k.cur_pid i false k := by
  by_cases hfd : fd < 2 ∨ fd > MAX_FILES - 1
  · rw [close_func_out hfd, Option.some.injEq, Prod.mk.injEq] at h
    exact Or.inl ⟨h.1.symm, h.2.symm⟩
  · have hnat : fd.toNat < MAX_FILES := by
      simp only [MAX_FILES] at hfd ⊢
      omega
    obtain ⟨i, rfl⟩ : ∃ i : Fd, fd = i.val := ⟨⟨fd.toNat, hnat⟩, by show fd = fd.toNat; omega⟩
    have h2 : 2 ≤ i.val := by omega
    rw [close_func_eq h2] at h
    by_cases hflag : ((k.pcb k.cur_pid).fd_table i).flags = false
    · rw [if_pos hflag, Option.some.injEq, Prod.mk.injEq] at h
      exact Or.inl ⟨h.1.symm, h.2.symm⟩
    · rw [if_neg hflag, Option.map_eq_some_iff] at h
      obtain ⟨v, -, heq⟩ := h
      rw [Prod.mk.injEq] at heq
      exact Or.inr ⟨i, rfl, h2, by simpa using hflag, heq.1.symm⟩

/-- The `close` calls of `halt` for one descriptor: the flag looked at is the victim's. -/
def closeOne (victim : Pid) (k : Kernel) (fd : Fd) : Option Kernel :=
  if ((k.pcb victim).fd_table fd).flags then (close_func fd.val k).map Prod.fst else some k

/-- A `close` of this descriptor of the running process would follow a null pointer. -/
def CloseFaults (k : Kernel) (fd : Fd) : Prop :=
  2 ≤ fd.val ∧ ((k.pcb k.cur_pid).fd_table fd).flags = true ∧
    ((k.pcb k.cur_pid).fd_table fd).op_table_ptr = .null

instance (k : Kernel) (fd : Fd) : Decidable (CloseFaults k fd) := by
  unfold CloseFaults
  infer_instance

/-- The descriptor table the running process is left with. -/
def closedOne (victim : Pid) (k : Kernel) (fd : Fd) : Kernel :=
  setTable k.cur_pid
    (closedTable (fun i => decide (i = fd) && ((k.pcb victim).fd_table i).flags)
      (k.pcb k.cur_pid).fd_table) k

@[simp] theorem setTable_setTable (p : Pid) (table table' : Fd → FileDesc) (k : Kernel) :
    setTable p table' (setTable p table k) = setTable p table' k := by
  simp [setTable, Kernel.modPcb]

theorem setTable_self (p : Pid) (k : Kernel) : setTable p (k.pcb p).fd_table k = k := by
  simp [setTable, Kernel.modPcb]

@[simp] theorem setTable_fd_table (p q : Pid) (table : Fd → FileDesc) (k : Kernel) :
    ((setTable p table k).pcb q).fd_table = if q = p then table else (k.pcb q).fd_table := by
  by_cases hq : q = p
  · subst hq
    simp [setTable]
  · simp [setTable, hq]

/-- Nothing happens for a descriptor that the victim does not use, or that `close` does
not accept. -/
theorem closedOne_eq_self {victim : Pid} {k : Kernel} {fd : Fd}
    (h : 2 ≤ fd.val → ((k.pcb victim).fd_table fd).flags = false) :
    closedOne victim k fd = k := by
  unfold closedOne
  rw [closedTable_eq_self, setTable_self]
  intro i hi
  by_cases hfd : i = fd
  · subst hfd
    simp [h hi]
  · simp [hfd]

/-- Otherwise the running process loses the descriptor. -/
theorem closedOne_eq_setFlags {victim : Pid} {k : Kernel} {fd : Fd} (h2 : 2 ≤ fd.val)
    (h : ((k.pcb victim).fd_table fd).flags = true) :
    closedOne victim k fd = setFlags k.cur_pid fd false k := by
  have htable : closedTable (fun i => decide (i = fd) && ((k.pcb victim).fd_table i).flags)
      (k.pcb k.cur_pid).fd_table =
      Function.update (k.pcb k.cur_pid).fd_table fd
        { (k.pcb k.cur_pid).fd_table fd with flags := false } := by
    funext i
    by_cases hi : i = fd
    · subst hi
      simp [closedTable, h2, h]
    · simp [closedTable, hi]
  unfold closedOne
  rw [htable]
  rfl

theorem setFlags_false_of_free {p : Pid} {fd : Fd} {k : Kernel}
    (h : ((k.pcb p).fd_table fd).flags = false) : setFlags p fd false k = k := by
  have hdesc : ({ (k.pcb p).fd_table fd with flags := false } : FileDesc) =
      (k.pcb p).fd_table fd := by
    rw [← h]
  show setTable p (Function.update (k.pcb p).fd_table fd
    { (k.pcb p).fd_table fd with flags := false }) k = k
  rw [hdesc, Function.update_eq_self, setTable_self]

theorem closeOne_eq (victim : Pid) (k : Kernel) (fd : Fd) :
    closeOne victim k fd =
      if ((k.pcb victim).fd_table fd).flags = true ∧ CloseFaults k fd then none
      else some (closedOne victim k fd) := by
  unfold closeOne
  by_cases hv : ((k.pcb victim).fd_table fd).flags = true
  · rw [if_pos hv]
    by_cases h2 : 2 ≤ fd.val
    · -- the two tables differ when the victim is not running: look at both flags
      rw [close_func_eq h2, closedOne_eq_setFlags h2 hv]
      by_cases hflag : ((k.pcb k.cur_pid).fd_table fd).flags = false
      · rw [if_pos hflag, if_neg (by simp [CloseFaults, hflag]), setFlags_false_of_free hflag]
        rfl
      · rw [if_neg hflag]
        have hflag' : ((k.pcb k.cur_pid).fd_table fd).flags = true := by simpa using hflag
        cases hop : ((k.pcb k.cur_pid).fd_table fd).op_table_ptr <;>
          simp [OpTable.close, CloseFaults, h2, hv, hflag', hop]
    · -- `close` rejects descriptors 0 and 1
      have hlt : (fd.val : ℤ) < 2 := by omega
      rw [close_func_out (Or.inl hlt), if_neg (by simp [CloseFaults, h2]),
        closedOne_eq_self fun h => absurd h h2]
      rfl
  · rw [if_neg hv, if_neg (by simp [hv]), closedOne_eq_self fun _ => by simpa using hv]

/-- Closing one descriptor leaves the others alone, in every process. -/
theorem closedOne_of_ne (victim q : Pid) (k : Kernel) {fd i : Fd} (h : i ≠ fd) :
    ((closedOne victim k fd).pcb q).fd_table i = (k.pcb q).fd_table i := by
  unfold closedOne
  rw [setTable_fd_table]
  by_cases hq : q = k.cur_pid
  · subst hq
    simp [closedTable, h]
  · simp [hq]

/-- The loop of `halt` over any list of different descriptors. -/
theorem foldlM_closeOne (victim : Pid) {l : List Fd} (hl : l.Nodup) (k : Kernel) :
    l.foldlM (closeOne victim) k =
      if ∃ fd ∈ l, ((k.pcb victim).fd_table fd).flags = true ∧ CloseFaults k fd then none
      else some (setTable k.cur_pid
        (closedTable (fun i => decide (i ∈ l) && ((k.pcb victim).fd_table i).flags)
          (k.pcb k.cur_pid).fd_table) k) := by
  induction l generalizing k with
  | nil =>
    rw [closedTable_eq_self _ (by simp), setTable_self]
    simp
  | cons fd l ih =>
    obtain ⟨hfd, hl⟩ := List.nodup_cons.mp hl
    rw [List.foldlM_cons, closeOne_eq]
    by_cases hbad : ((k.pcb victim).fd_table fd).flags = true ∧ CloseFaults k fd
    · rw [if_pos hbad, if_pos ⟨fd, List.mem_cons_self .., hbad⟩]
      rfl
    · rw [if_neg hbad]
      show l.foldlM (closeOne victim) (closedOne victim k fd) = _
      -- closing `fd` does not change what the rest of the loop looks at
      have hne : ∀ i ∈ l, i ≠ fd := fun i hi hifd => hfd (hifd ▸ hi)
      have hsame : ∀ i ∈ l, (((closedOne victim k fd).pcb victim).fd_table i).flags = true ∧
          CloseFaults (closedOne victim k fd) i ↔
          ((k.pcb victim).fd_table i).flags = true ∧ CloseFaults k i := by
        intro i hi
        have hcur : (closedOne victim k fd).cur_pid = k.cur_pid := rfl
        unfold CloseFaults
        rw [hcur, closedOne_of_ne _ _ _ (hne i hi), closedOne_of_ne _ _ _ (hne i hi)]
      have htail : (∃ i ∈ l, (((closedOne victim k fd).pcb victim).fd_table i).flags = true ∧
          CloseFaults (closedOne victim k fd) i) ↔
          ∃ i ∈ fd :: l, ((k.pcb victim).fd_table i).flags = true ∧ CloseFaults k i := by
        constructor
        · rintro ⟨i, hi, h⟩
          exact ⟨i, List.mem_cons_of_mem _ hi, (hsame i hi).mp h⟩
        · rintro ⟨i, hi, h⟩
          rcases List.mem_cons.mp hi with rfl | hi
          · exact absurd h hbad
          · exact ⟨i, hi, (hsame i hi).mpr h⟩
      rw [ih hl, if_congr htail rfl rfl]
      -- two stores of the running process's table are one
      have hresult : setTable (closedOne victim k fd).cur_pid
          (closedTable (fun i => decide (i ∈ l) &&
            (((closedOne victim k fd).pcb victim).fd_table i).flags)
            ((closedOne victim k fd).pcb (closedOne victim k fd).cur_pid).fd_table)
          (closedOne victim k fd) =
          setTable k.cur_pid
            (closedTable (fun i => decide (i ∈ fd :: l) && ((k.pcb victim).fd_table i).flags)
              (k.pcb k.cur_pid).fd_table) k := by
        have hcur : (closedOne victim k fd).cur_pid = k.cur_pid := rfl
        rw [hcur]
        show setTable k.cur_pid _ (setTable k.cur_pid _ k) = _
        rw [setTable_setTable]
        congr 1
        funext i
        by_cases hi : i = fd
        · subst hi
          unfold closedOne
          simp [closedTable, hfd]
        · simp [closedTable, closedOne_of_ne _ _ _ hi, hi]
      rw [hresult]

/-- The loop of `halt` over the victim's descriptors, in one go. -/
theorem close_files_eq (victim : Pid) (k : Kernel) :
    close_files victim k =
      if ∃ fd, ((k.pcb victim).fd_table fd).flags = true ∧ CloseFaults k fd then none
      else some (setTable k.cur_pid
        (closedTable (fun i => ((k.pcb victim).fd_table i).flags)
          (k.pcb k.cur_pid).fd_table) k) := by
  have hloop := foldlM_closeOne victim (List.nodup_finRange MAX_FILES) k
  simp only [List.mem_finRange, decide_true, Bool.true_and, true_and] at hloop
  exact hloop

/-! ## `halt` -/

/-- The running terminal's process and kernel stack are put aside, and the displayed
terminal becomes the running one. -/
def suspended (running : Pid) (fr : Frame) (k : Kernel) : Kernel :=
  { k with
    pcb := Function.update k.pcb running
      { k.pcb running with curr_ebp := fr.ebp, curr_esp := fr.esp k }
    term := Function.update k.term k.running_term
      { k.term k.running_term with esp0 := k.tss.esp0, ss0 := k.tss.ss0 }
    running_term := k.curr_term }

/-- The backup screens are where they were. -/
def SameScreens (s s' : Console) : Prop := ∀ t, (s'.term t).vid_backup = (s.term t).vid_backup

theorem sameScreens_of_term_eq {s s' : Console} (h : s'.term = s.term) : SameScreens s s' := by
  intro t
  rw [h]

theorem clear_keyboard_backup_screens (t : TermId) (s : Console) :
    SameScreens s (clear_keyboard_backup t s) := by
  intro u
  exact update_field TermConsole.vid_backup u

/-- Whom `halt` ends: the displayed process for status 1, otherwise the caller. -/
theorem halt_target_cases {status : UInt8} {fr : Frame} {k k' : Kernel} {victim : Pid}
    {t : TermId} (h : halt_target status fr k = some (victim, t, k')) :
    ∃ console, SameScreens k.console console ∧
      ((status = 1 ∧ k.running_pid k.curr_term = some victim ∧ t = k.curr_term ∧
          k.running_term = k.curr_term ∧ k' = { k with console := console }) ∨
        (status = 1 ∧ k.running_pid k.curr_term = some victim ∧ t = k.curr_term ∧
          k.running_term ≠ k.curr_term ∧ ∃ running, k.running_pid k.running_term = some running ∧
            k' = { suspended running fr k with console := console }) ∨
        (status ≠ 1 ∧ victim = k.cur_pid ∧ t = (k.pcb k.cur_pid).term_id ∧
          k' = { k with console := console })) := by
  unfold halt_target at h
  by_cases hs : status = 1
  · rw [if_pos hs, Option.bind_eq_bind, Option.bind_eq_some_iff] at h
    obtain ⟨v, hv, h⟩ := h
    refine ⟨clear_keyboard_buffer k.console, fun t => rfl, ?_⟩
    by_cases hrun : k.running_term = k.curr_term
    · -- the displayed terminal runs already
      simp only [hrun, ne_eq, not_true_eq_false, if_false, Option.bind_eq_bind,
        Option.bind_some, Option.some.injEq, Prod.mk.injEq] at h
      obtain ⟨rfl, rfl, rfl⟩ := h
      exact Or.inl ⟨hs, hv, rfl, hrun, rfl⟩
    · simp only [ne_eq, hrun, not_false_eq_true, if_true, Option.bind_eq_bind,
        Option.bind_eq_some_iff, Option.some.injEq, Prod.mk.injEq] at h
      obtain ⟨running, hr, k₁, rfl, rfl, rfl, rfl⟩ := h
      exact Or.inr (Or.inl ⟨hs, hv, rfl, hrun, running, hr, rfl⟩)
  · rw [if_neg hs] at h
    dsimp only at h
    by_cases ht : (k.pcb k.cur_pid).term_id = k.curr_term
    · rw [if_neg (not_not.mpr ht), Option.some.injEq, Prod.mk.injEq, Prod.mk.injEq] at h
      obtain ⟨rfl, rfl, rfl⟩ := h
      exact ⟨clear_keyboard_buffer k.console, fun t => rfl, Or.inr (Or.inr ⟨hs, rfl, rfl, rfl⟩)⟩
    · rw [if_pos ht, Option.some.injEq, Prod.mk.injEq, Prod.mk.injEq] at h
      obtain ⟨rfl, rfl, rfl⟩ := h
      exact ⟨_, clear_keyboard_backup_screens _ _, Or.inr (Or.inr ⟨hs, rfl, rfl, rfl⟩)⟩

/-- The kernel once the victim's process number is free and its descriptors, as numbered
by the victim, are closed. -/
def released (victim : Pid) (k : Kernel) : Kernel :=
  setTable k.cur_pid
    (closedTable (fun fd => ((k.pcb victim).fd_table fd).flags) (k.pcb k.cur_pid).fd_table)
    { k with pid_array := Function.update k.pid_array (k.pcb victim).pid false }

/-- No `close` of `halt` follows a null pointer. -/
def Closable (victim : Pid) (k : Kernel) : Prop :=
  ∀ fd, ((k.pcb victim).fd_table fd).flags = true → ¬ CloseFaults k fd

/-- `halt` once the target is known. -/
theorem halt_func_eq (m : Machine) {status : UInt8} {fr frShell : Frame} {k k₁ : Kernel}
    {victim : Pid} {t : TermId} (htarget : halt_target status fr k.cli = some (victim, t, k₁))
    (hclose : Closable victim k₁) :
    halt_func m status fr frShell k =
      match (k₁.pcb victim).parent with
      | some parent => some (return_to_parent status victim parent t (released victim k₁))
      | none =>
        match execute_func m .kernel m.shell frShell
            ((released victim k₁).modTerm t fun i => { i with running_pid := none }) with
        | some (k, .enterUser e) => some (k, .enterUser e)
        | _ => none := by
  have hfiles : close_files victim
      { k₁ with pid_array := Function.update k₁.pid_array (k₁.pcb victim).pid false } =
      some (released victim k₁) := by
    rw [close_files_eq, if_neg]
    · rfl
    · rintro ⟨fd, hflag, hbad⟩
      exact hclose fd hflag hbad
  unfold halt_func
  rw [htarget]
  simp only [Option.bind_eq_bind, Option.bind_some, hfiles]
  cases (k₁.pcb victim).parent <;> rfl

/-- Every way `halt` ends. -/
theorem halt_func_cases {m : Machine} {status : UInt8} {fr frShell : Frame} {k k' : Kernel}
    {out : Outcome} (h : halt_func m status fr frShell k = some (k', out)) :
    ∃ victim t k₁, halt_target status fr k.cli = some (victim, t, k₁) ∧ Closable victim k₁ ∧
      ((∃ parent, (k₁.pcb victim).parent = some parent ∧
          (k', out) = return_to_parent status victim parent t (released victim k₁)) ∨
        ((k₁.pcb victim).parent = none ∧ ∃ e, out = .enterUser e ∧
          execute_func m .kernel m.shell frShell
            ((released victim k₁).modTerm t fun i => { i with running_pid := none }) =
            some (k', .enterUser e))) := by
  have hrun := h
  unfold halt_func at hrun
  rw [Option.bind_eq_bind, Option.bind_eq_some_iff] at hrun
  obtain ⟨⟨victim, t, k₁⟩, htarget, hrun⟩ := hrun
  dsimp only at hrun
  rw [Option.bind_eq_bind, Option.bind_eq_some_iff] at hrun
  obtain ⟨k₂, hfiles, -⟩ := hrun
  -- the loop has come to its end, so no `close` has faulted
  have hclose : Closable victim k₁ := by
    intro fd hflag hbad
    have hnone : close_files victim
        { k₁ with pid_array := Function.update k₁.pid_array (k₁.pcb victim).pid false } =
        none := by
      rw [close_files_eq, if_pos ⟨fd, hflag, hbad⟩]
    rw [hnone] at hfiles
    cases hfiles
  refine ⟨victim, t, k₁, htarget, hclose, ?_⟩
  rw [halt_func_eq m htarget hclose] at h
  cases hparent : (k₁.pcb victim).parent with
  | some parent =>
    rw [hparent] at h
    exact Or.inl ⟨parent, rfl, (Option.some.inj h).symm⟩
  | none =>
    rw [hparent] at h
    refine Or.inr ⟨rfl, ?_⟩
    dsimp only at h
    split at h
    · next k₃ e hex =>
      rw [Option.some.injEq, Prod.mk.injEq] at h
      obtain ⟨rfl, rfl⟩ := h
      exact ⟨e, rfl, hex⟩
    · cases h

/-! ## `launch_term` and the timer -/

theorem switch_terminal_screens (old_term new_term : TermId) (s : Console) :
    SameScreens s (switch_terminal old_term new_term s) := by
  intro u
  unfold switch_terminal save_term_info restore_term_info clear_keyboard_backup
    clear_keyboard_buffer Console.modTerm
  by_cases hu : u = old_term
  · subst hu
    simp
  · simp [hu]

/-- The kernel when `launch_term` calls `execute` for a terminal without a process. -/
def opening (t : TermId) (old : Pid) (fr : Frame) (k : Kernel) : Kernel :=
  { k with
    console := switch_terminal k.curr_term t k.console
    curr_term := t
    pcb := Function.update k.pcb old { k.pcb old with curr_ebp := fr.ebp, curr_esp := fr.esp k }
    intf := true }

/-- Video memory as the running process sees it once terminal `t` is on display. -/
def videoMap (m : Machine) (running displayed : TermId) (k : Kernel) : Paging :=
  if running ≠ displayed then
    remap_vid m.layout _132MB (k.console.term running).vid_backup
      (remap_vid m.layout _132MB VIDEO k.paging)
  else remap_vid m.layout _132MB VIDEO k.paging

/-- Terminal `t`, which has a process, on display. -/
def displayed (m : Machine) (t : TermId) (k : Kernel) : Kernel :=
  let console := switch_terminal k.curr_term t k.console
  { k with
    console := console
    curr_term := t
    paging := videoMap m k.running_term t { k with console := console }
    intf := true }

/-- `launch_term` for a terminal without a process. -/
theorem launch_term_opening (m : Machine) {t : TermId} {fr frShell : Frame} {k : Kernel}
    (ht : t ≠ k.curr_term) (hnone : k.running_pid t = none) :
    launch_term m t fr frShell k =
      (k.running_pid k.running_term).bind fun old =>
        (execute_func m .kernel m.shell frShell (opening t old fr k)).map fun r =>
          (r.1, match r.2 with
            | .enterUser e => .enterUser e
            | _ => .ret 0) := by
  unfold launch_term
  dsimp only
  rw [if_neg (show ¬ t = k.cli.curr_term from ht), show k.cli.running_pid t = none from hnone]
  show (k.running_pid k.running_term).bind (fun old =>
    (execute_func m .kernel m.shell frShell (opening t old fr k)).bind fun _ => _) = _
  cases k.running_pid k.running_term with
  | none => rfl
  | some old =>
    rw [Option.bind_some, Option.bind_some]
    cases execute_func m .kernel m.shell frShell (opening t old fr k) <;> rfl

/-- Every way `launch_term` ends. -/
theorem launch_term_cases {m : Machine} {t : TermId} {fr frShell : Frame} {k k' : Kernel}
    {out : Outcome} (h : launch_term m t fr frShell k = some (k', out)) :
    (t = k.curr_term ∧ k' = { k with intf := true } ∧ out = .ret 0) ∨
    (t ≠ k.curr_term ∧ k.running_pid t = none ∧
      ∃ old, k.running_pid k.running_term = some old ∧
        ∃ r, execute_func m .kernel m.shell frShell (opening t old fr k) = some (k', r) ∧
          ((∃ e, r = .enterUser e ∧ out = .enterUser e) ∨ (∀ e, r ≠ .enterUser e) ∧ out = .ret 0)) ∨
    (t ≠ k.curr_term ∧ (∃ p, k.running_pid t = some p) ∧ k' = displayed m t k ∧
      out = .ret 0) := by
  by_cases ht : t = k.curr_term
  · unfold launch_term at h
    rw [if_pos (show t = k.cli.curr_term from ht), Option.some.injEq, Prod.mk.injEq] at h
    exact Or.inl ⟨ht, h.1.symm, h.2.symm⟩
  · refine Or.inr ?_
    cases hrun : k.running_pid t with
    | none =>
      rw [launch_term_opening m ht hrun, Option.bind_eq_some_iff] at h
      obtain ⟨old, hold, h⟩ := h
      rw [Option.map_eq_some_iff] at h
      obtain ⟨⟨k₁, r⟩, hex, h⟩ := h
      rw [Prod.mk.injEq] at h
      obtain ⟨rfl, rfl⟩ := h
      refine Or.inl ⟨ht, rfl, old, hold, r, hex, ?_⟩
      cases r with
      | enterUser e => exact Or.inl ⟨e, rfl, rfl⟩
      | ret v => exact Or.inr ⟨by simp, rfl⟩
      | resume c esp ebp eax => exact Or.inr ⟨by simp, rfl⟩
    | some p =>
      unfold launch_term at h
      dsimp only at h
      rw [if_neg (show ¬ t = k.cli.curr_term from ht),
        show k.cli.running_pid t = some p from hrun] at h
      rw [Option.some.injEq, Prod.mk.injEq] at h
      obtain ⟨rfl, rfl⟩ := h
      refine Or.inr ⟨ht, ⟨p, rfl⟩, ?_, rfl⟩
      by_cases hterm : k.running_term = t
      · simp [displayed, videoMap, vidmap, Kernel.cli, Kernel.modConsole, Kernel.modPaging,
          Kernel.sti, hterm]
      · simp [displayed, videoMap, vidmap, Kernel.cli, Kernel.modConsole, Kernel.modPaging,
          Kernel.sti, hterm]

/-- The kernel after a switch from `curr` to process `p` of terminal `t`. -/
def switched (m : Machine) (t : TermId) (p curr : Pid) (fr : Frame) (k : Kernel) : Kernel :=
  { k with
    pcb := Function.update k.pcb curr
      { k.pcb curr with curr_ebp := fr.ebp, curr_esp := fr.esp k }
    term := Function.update k.term k.running_term
      { k.term k.running_term with esp0 := k.tss.esp0, ss0 := k.tss.ss0 }
    running_term := t
    tss := { ss0 := (k.term t).ss0, esp0 := (k.term t).esp0 }
    cur_pid := p
    paging := remap _128MB (_8MB + p * _4MB) (videoMap m t k.curr_term k)
    intf := true }

theorem vidmap_displayed (m : Machine) (t : TermId) (k : Kernel) :
    (if t ≠ k.curr_term then
        (vidmap m k).modPaging (remap_vid m.layout _132MB (k.console.term t).vid_backup)
      else vidmap m k) = { k with paging := videoMap m t k.curr_term k } := by
  unfold videoMap
  split_ifs <;> rfl

/-- `schedule`, for terminals that carry their own numbers. -/
theorem schedule_eq {m : Machine} {t : TermId} {p : Pid} {fr : Frame} {k : Kernel}
    (hid : (k.term t).term_id = t) :
    schedule m t p fr k =
      (k.running_pid k.running_term).map fun curr =>
        { switched m t p curr fr k with intf := k.intf } := by
  have hid' : ((vidmap m k).term t).term_id = t := hid
  -- saving the stack leaves `running_pid` alone
  have hcurr : ((Function.update k.term k.running_term
      { k.term k.running_term with esp0 := k.tss.esp0, ss0 := k.tss.ss0 })
      k.running_term).running_pid = k.running_pid k.running_term := by simp
  unfold schedule
  dsimp only
  rw [hid', show (vidmap m k).curr_term = k.curr_term from rfl,
    show (vidmap m k).console = k.console from rfl, vidmap_displayed]
  show Option.bind ((Function.update k.term k.running_term
    { k.term k.running_term with esp0 := k.tss.esp0, ss0 := k.tss.ss0 })
    k.running_term).running_pid _ = _
  rw [hcurr]
  cases k.running_pid k.running_term <;> rfl

/-- The terminal found has the process found. -/
theorem get_next_process_spec {k : Kernel} {t : TermId} {next : Option Pid}
    (h : get_next_process k = (t, next)) : k.running_pid t = next := by
  unfold get_next_process at h
  dsimp only at h
  rw [Prod.mk.injEq] at h
  rw [← h.1]
  exact h.2

/-- Every way a timer tick ends, for terminals that carry their own numbers. -/
theorem pit_interrupt_handler_cases {m : Machine} {fr : Frame} {k k' : Kernel}
    (hid : ∀ t, (k.term t).term_id = t) (h : pit_interrupt_handler m fr k = some k') :
    (k.running_pid 1 = none ∧ k.running_pid 2 = none ∧ k' = { k with intf := true }) ∨
    ((k.running_pid 1 ≠ none ∨ k.running_pid 2 ≠ none) ∧
      ∃ t p curr, get_next_process k = (t, some p) ∧ k.running_pid k.running_term = some curr ∧
        k' = switched m t p curr fr k) := by
  unfold pit_interrupt_handler at h
  by_cases hsome : k.running_pid 1 ≠ none ∨ k.running_pid 2 ≠ none
  · refine Or.inr ⟨hsome, ?_⟩
    have hsome' : k.cli.running_pid 1 ≠ none ∨ k.cli.running_pid 2 ≠ none := hsome
    rw [if_pos hsome', Option.bind_eq_bind, Option.bind_eq_some_iff] at h
    obtain ⟨p, hp, h⟩ := h
    rw [schedule_eq (k := k.cli) (hid _), Option.bind_eq_bind, Option.bind_eq_some_iff] at h
    obtain ⟨k₁, hsched, h⟩ := h
    rw [Option.map_eq_some_iff] at hsched
    obtain ⟨curr, hcurr, rfl⟩ := hsched
    rw [Option.some.injEq] at h
    exact ⟨_, p, curr, Prod.ext rfl hp, hcurr, h.symm⟩
  · have hsome' : ¬ (k.cli.running_pid 1 ≠ none ∨ k.cli.running_pid 2 ≠ none) := hsome
    rw [if_neg hsome', Option.bind_eq_bind, Option.bind_some, Option.some.injEq] at h
    push Not at hsome
    exact Or.inl ⟨hsome.1, hsome.2, h.symm⟩

/-! ## Calls that leave the process structure alone -/

/-- What `open`, `close`, `vidmap` and the input and output calls change: the caller's
descriptors, its terminal's clock rate, the page tables, the console, the file system
driver's globals and the program pages. -/
def Quiet (k k' : Kernel) : Prop :=
  ∃ table freq paging console fs frame, SameScreens k.console console ∧
    k' = { k with
      pcb := Function.update k.pcb k.cur_pid { k.pcb k.cur_pid with fd_table := table }
      term := Function.update k.term k.running_term
        { k.term k.running_term with rtc_freq := freq }
      paging := paging
      console := console
      fs := fs
      frame := frame }

theorem Quiet.of_memory (k : Kernel) (paging : Paging) (fs : FsGlobals) (frame : Pid → Bytes) :
    Quiet k { k with paging := paging, fs := fs, frame := frame } := by
  refine ⟨(k.pcb k.cur_pid).fd_table, (k.term k.running_term).rtc_freq, paging, k.console, fs,
    frame, fun t => rfl, ?_⟩
  simp

theorem Quiet.terminals {k k' : Kernel} (h : Quiet k k') :
    k'.running_term = k.running_term ∧ k'.curr_term = k.curr_term := by
  obtain ⟨table, freq, paging, console, fs, frame, -, rfl⟩ := h
  exact ⟨rfl, rfl⟩

theorem Quiet.of_table (k : Kernel) (fs : FsGlobals) (table : Fd → FileDesc) :
    Quiet k (setTable k.cur_pid table { k with fs := fs }) := by
  refine ⟨table, (k.term k.running_term).rtc_freq, k.paging, k.console, fs, k.frame,
    fun t => rfl, ?_⟩
  simp [setTable, Kernel.modPcb]

theorem open_func_quiet (m : Machine) (filename : Option Bytes) (k : Kernel) :
    Quiet k (open_func m filename k).1 := by
  unfold open_func
  cases filename with
  | none => exact Quiet.of_memory k k.paging k.fs k.frame
  | some name =>
    dsimp only
    split_ifs with hin hout
    · exact Quiet.of_table k k.fs _
    · exact Quiet.of_table k k.fs _
    · cases read_dentry_by_name m.img name k.fs with
      | none => exact Quiet.of_memory k k.paging k.fs k.frame
      | some dfs =>
        obtain ⟨d, fs⟩ := dfs
        dsimp only
        split
        · exact Quiet.of_memory k k.paging fs k.frame
        · split_ifs
          · exact ⟨_, MIN_RTC_FREQ, k.paging, k.console, fs, k.frame, fun t => rfl, rfl⟩
          · exact Quiet.of_table k fs _
          · exact Quiet.of_table k fs _
          · exact Quiet.of_table k fs _

theorem close_func_quiet {fd r : ℤ} {k k' : Kernel} (h : close_func fd k = some (k', r)) :
    Quiet k k' := by
  rcases close_func_cases h with ⟨rfl, -⟩ | ⟨i, -, -, -, rfl⟩
  · exact Quiet.of_memory k' k'.paging k'.fs k'.frame
  · exact Quiet.of_table k k.fs _

/-- One byte goes to the page tables, to the screens or to a program page. -/
theorem storePhysical_memory {m : Machine} {addr : ℕ} {b : UInt8} {k k' : Kernel}
    (h : storePhysical m addr b k = some k') : ∃ paging console frame,
      console.term = k.console.term ∧
        k' = { k with paging := paging, console := console, frame := frame } := by
  unfold storePhysical at h
  dsimp only at h
  split_ifs at h
  · exact ⟨_, k.console, k.frame, rfl, (Option.some.inj h).symm⟩
  · exact ⟨_, k.console, k.frame, rfl, (Option.some.inj h).symm⟩
  · exact ⟨k.paging, k.console.store addr b, k.frame, rfl, (Option.some.inj h).symm⟩
  · exact ⟨k.paging, k.console, _, rfl, (Option.some.inj h).symm⟩

theorem storeThrough_memory {m : Machine} {ptr : Word} {v : ℕ} {k k' : Kernel}
    (h : storeThrough m ptr v k = some k') : ∃ paging console frame,
      console.term = k.console.term ∧
        k' = { k with paging := paging, console := console, frame := frame } := by
  unfold storeThrough at h
  refine TransitionSystem.foldlM_invariant (P := fun k' => ∃ paging console frame,
      console.term = k.console.term ∧
        k' = { k with paging := paging, console := console, frame := frame }) ?_
    ⟨k.paging, k.console, k.frame, rfl, rfl⟩ h
  rintro k₁ i k₂ - ⟨paging, console, frame, hterm, rfl⟩ hbyte
  rw [Option.bind_eq_bind, Option.bind_eq_some_iff] at hbyte
  obtain ⟨addr, -, hstore⟩ := hbyte
  obtain ⟨paging', console', frame', hterm', rfl⟩ := storePhysical_memory hstore
  exact ⟨paging', console', frame', hterm'.trans hterm, rfl⟩

theorem vidmap_func_quiet {m : Machine} {ptr : Word} {r : ℤ} {k k' : Kernel}
    (h : vidmap_func m ptr k = some (k', r)) : Quiet k k' := by
  unfold vidmap_func at h
  split_ifs at h with hptr
  · rw [Option.some.injEq, Prod.mk.injEq] at h
    rw [← h.1]
    exact Quiet.of_memory k k.paging k.fs k.frame
  · rw [Option.bind_eq_bind, Option.bind_eq_some_iff] at h
    obtain ⟨k₁, hstore, h⟩ := h
    obtain ⟨paging, console, frame, hterm, rfl⟩ := storeThrough_memory hstore
    rw [Option.some.injEq, Prod.mk.injEq] at h
    rw [← h.1]
    refine ⟨(k.pcb k.cur_pid).fd_table, (k.term k.running_term).rtc_freq,
      remap_vid m.layout _132MB VIDEO paging, console, k.fs, frame,
      sameScreens_of_term_eq hterm, ?_⟩
    simp [vidmap, Kernel.modPaging]

theorem io_step_quiet {console : Console} {dir_number : ℕ} {page : Bytes} {position : Fd → ℕ}
    {rtc_freq : ℕ} {k k' : Kernel}
    (h : io_step console dir_number page position rtc_freq k = some k') :
    Quiet k k' := by
  unfold io_step at h
  split_ifs at h with hscreens
  rw [Option.some.injEq] at h
  rw [← h]
  exact ⟨_, rtc_freq, k.paging, console, _, _, hscreens, rfl⟩

/-- Every step is an `execute`, a `halt`, a terminal switch, a timer tick, or quiet. -/
theorem step_quiet {m : Machine} {k k' : Kernel} {e : Event} {out : Outcome}
    (h : step m k e = some (k', out)) :
    (∃ command fr, e = .execute command fr) ∨ (∃ status fr frShell, e = .halt status fr frShell) ∨
      (∃ t fr frShell, e = .launch_term t fr frShell) ∨ (∃ fr, e = .tick fr) ∨
      (Quiet k k' ∧ ∃ v, out = .ret v) := by
  cases e with
  | execute command fr => exact Or.inl ⟨command, fr, rfl⟩
  | halt status fr frShell => exact Or.inr (Or.inl ⟨status, fr, frShell, rfl⟩)
  | launch_term t fr frShell => exact Or.inr (Or.inr (Or.inl ⟨t, fr, frShell, rfl⟩))
  | tick fr => exact Or.inr (Or.inr (Or.inr (Or.inl ⟨fr, rfl⟩)))
  | open_file filename =>
    rw [step, Option.some.injEq, Prod.mk.injEq] at h
    rw [← h.1, ← h.2]
    exact Or.inr (Or.inr (Or.inr (Or.inr ⟨open_func_quiet m filename k, _, rfl⟩)))
  | close fd =>
    obtain ⟨r, hclose, hout⟩ := step_close h
    exact Or.inr (Or.inr (Or.inr (Or.inr ⟨close_func_quiet hclose, r, hout⟩)))
  | vidmap screen_start =>
    obtain ⟨r, hvid, hout⟩ := step_vidmap h
    exact Or.inr (Or.inr (Or.inr (Or.inr ⟨vidmap_func_quiet hvid, r, hout⟩)))
  | io console dir_number page position rtc_freq =>
    obtain ⟨hio, hout⟩ := step_io h
    exact Or.inr (Or.inr (Or.inr (Or.inr ⟨io_step_quiet hio, 0, hout⟩)))

end Kernel391
