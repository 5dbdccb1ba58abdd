import Kernel391.CommandWords
import Kernel391.FileCalls
import Kernel391.FileContents
import Kernel391.Isolation

/-!
# Executables

`execute` checks a file before it starts it, and loads it afterwards. A call that fails leaves
the processes alone (`execute_atomic`). The check sees a short file through what is left in its
buffer (`header_checked_iff`), and the loader looks neither at the size of the file nor at what
`read_data` returns (`program_loaded_iff`).

All of this holds on any image, so `execute_func_on` takes the place of `execute_func` here.
-/

namespace Kernel391

open Stream

section
variable {img : Image} {caller : Caller} {command : Bytes} {fr : Frame} {k k' : Kernel}
  {x : Executable} {p : Pid}

/-! ## How `execute` ends -/

theorem execute_func_on_refuse {fs : FsGlobals}
    (hcheck : check_command img command fr k.fs = .refuse fs) :
    execute_func_on img caller command fr k =
      some ({ k with fs := fs, intf := true }, .ret (-1)) := by
  unfold execute_func_on
  dsimp only
  rw [show check_command img command fr k.cli.fs = .refuse fs from hcheck]
  rfl

/-- Without a free number. -/
theorem execute_func_on_full (hcheck : check_command img command fr k.fs = .accept x)
    (hfull : ∀ p, k.pid_array p = true) :
    ∃ k', execute_func_on img caller command fr k = some (k', .ret (-2)) := by
  unfold execute_func_on
  dsimp only
  rw [show check_command img command fr k.cli.fs = .accept x from hcheck]
  dsimp only
  cases hget : get_available_pid { k.cli with fs := x.fs } with
  | mk r k₁ =>
    cases r with
    | none => exact ⟨_, rfl⟩
    | some p =>
      have hfree : k.pid_array p = false := (get_available_pid_some hget).1
      rw [hfull p] at hfree
      cases hfree

/-! ## A call that fails -/

/-- What a call that fails leaves alone. -/
structure Untouched (k k' : Kernel) : Prop where
  pid_array : k'.pid_array = k.pid_array
  cur_pid : k'.cur_pid = k.cur_pid
  running_term : k'.running_term = k.running_term
  curr_term : k'.curr_term = k.curr_term
  term : k'.term = k.term
  console : k'.console.term = k.console.term
  pcb : k'.pcb = k.pcb
  paging : k'.paging = k.paging
  tss : k'.tss = k.tss
  frame : k'.frame = k.frame

theorem execute_func_on_fails {v : ℤ}
    (h : execute_func_on img caller command fr k = some (k', .ret v)) :
    Untouched k k' ∧ k'.intf = true := by
  rcases execute_func_on_cases h with ⟨fs, -, -, rfl⟩ | ⟨x, -, -, -, console, hterm, rfl⟩ |
    ⟨x, p, -, -, -, hout, -⟩
  · exact ⟨⟨rfl, rfl, rfl, rfl, rfl, rfl, rfl, rfl, rfl, rfl⟩, rfl⟩
  · exact ⟨⟨rfl, rfl, rfl, rfl, rfl, hterm, rfl, rfl, rfl, rfl⟩, rfl⟩
  · cases hout

theorem execute_func_on_full_iff :
    (∃ k', execute_func_on img caller command fr k = some (k', .ret (-2))) ↔
      (∃ x, check_command img command fr k.fs = .accept x) ∧ ∀ p, k.pid_array p = true := by
  constructor
  · rintro ⟨k', h⟩
    rcases execute_func_on_cases h with ⟨fs, -, hout, -⟩ | ⟨x, hcheck, hfull, -⟩ |
      ⟨x, p, -, -, -, hout, -⟩
    · rw [Outcome.ret.injEq] at hout
      omega
    · exact ⟨⟨x, hcheck⟩, hfull⟩
    · cases hout
  · rintro ⟨⟨x, hcheck⟩, hfull⟩
    exact execute_func_on_full hcheck hfull

theorem execute_func_on_takes {e : ℕ}
    (h : execute_func_on img caller command fr k = some (k', .enterUser e)) :
    ∃ p, k.pid_array p = false ∧ (∀ q < p, k.pid_array q = true) ∧
      k'.pid_array = Function.update k.pid_array p true := by
  rcases execute_func_on_cases h with ⟨fs, -, hout, -⟩ | ⟨x, -, -, hout, -⟩ |
    ⟨x, p, -, hfree, hmin, -, k₁, -, rfl⟩
  · cases hout
  · cases hout
  · exact ⟨p, hfree, hmin, rfl⟩

end

/-- `execute` either takes the smallest free process number, or fails and changes nothing of the
processes; with -2 if and only if the checks have been passed and no number is free. -/
theorem execute_atomic (img : Image) (caller : Caller) (command : Bytes) (fr : Frame)
    (k : Kernel) :
    (∀ k' v, execute_func_on img caller command fr k = some (k', .ret v) → v < 0 →
      Untouched k k' ∧ k'.intf = true) ∧
    ((∃ k', execute_func_on img caller command fr k = some (k', .ret (-2))) ↔
      (∃ x, check_command img command fr k.fs = .accept x) ∧ ∀ p, k.pid_array p = true) ∧
    ∀ k' e, execute_func_on img caller command fr k = some (k', .enterUser e) →
      ∃ p, k.pid_array p = false ∧ (∀ q < p, k.pid_array q = true) ∧
        k'.pid_array = Function.update k.pid_array p true :=
  ⟨fun _ _ h _ => execute_func_on_fails h, execute_func_on_full_iff,
    fun _ _ h => execute_func_on_takes h⟩

/-! ## The check -/

/-- What an executable has at its start. -/
structure HasHeader (file : List UInt8) : Prop where
  long : 28 ≤ file.length
  magic : file.take 4 = elfMagic

instance (file : List UInt8) : Decidable (HasHeader file) :=
  decidable_of_iff (28 ≤ file.length ∧ file.take 4 = elfMagic)
    ⟨fun h => ⟨h.1, h.2⟩, fun h => ⟨h.long, h.magic⟩⟩

/-- The word at bytes 24 to 27. -/
def entryPoint (file : List UInt8) : ℕ :=
  (file.getD 24 0).toNat + 2 ^ 8 * (file.getD 25 0).toNat + 2 ^ 16 * (file.getD 26 0).toNat
    + 2 ^ 24 * (file.getD 27 0).toNat

/-- The words of the command fit their buffers, and the first names an entry. -/
def FindsEntry (img : Image) (command : Bytes) (fr : Frame) (fs : FsGlobals) (d : Dentry)
    (fs' : FsGlobals) : Prop :=
  ∃ p, parse_command command fr.parsed_command = some p ∧
    p.end_point - p.start_point < MAX_ARG ∧
    read_dentry_by_name img p.parsed_command fs = some (d, fs')

/-- What gets past the checks is an executable, started at the entry point it names, and without
a header `execute` returns -1. -/
structure ChecksHeader (img : Image) (caller : Caller) (command : Bytes) (fr : Frame) (k : Kernel)
    (d : Dentry) : Prop where
  accepted : ∀ x, check_command img command fr k.fs = .accept x →
    HasHeader (img.file d.inode) ∧ x.entry_point = entryPoint (img.file d.inode)
  entered : ∀ k' e, execute_func_on img caller command fr k = some (k', .enterUser e) →
    HasHeader (img.file d.inode) ∧ e = entryPoint (img.file d.inode)
  refused : ¬ HasHeader (img.file d.inode) →
    ∃ k', execute_func_on img caller command fr k = some (k', .ret (-1))

section
variable {img : Image} {caller : Caller} {command : Bytes} {fr : Frame} {k : Kernel} {d : Dentry}
  {fs fs' : FsGlobals}

/-- The first bytes of the buffer come from the file, the others were there before. -/
theorem hasMagic_overwrite_iff {file : List UInt8} (buf : Bytes) (h : 4 ≤ file.length) :
    HasMagic (overwrite buf (file.take 4)) ↔ file.take 4 = elfMagic := by
  match file, h with
  | b₀ :: b₁ :: b₂ :: b₃ :: rest, _ =>
    unfold HasMagic overwrite elfMagic
    simp

/-- The entry point is read over the magic. -/
theorem entry_of_overwrite {file : List UInt8} (buf : Bytes) (h : 28 ≤ file.length) :
    (overwrite buf (piece file ENTRY_POINT_START 4) 0).toNat
        + 2 ^ 8 * (overwrite buf (piece file ENTRY_POINT_START 4) 1).toNat
        + 2 ^ 16 * (overwrite buf (piece file ENTRY_POINT_START 4) 2).toNat
        + 2 ^ 24 * (overwrite buf (piece file ENTRY_POINT_START 4) 3).toNat =
      entryPoint file := by
  have hbyte : ∀ j < 4,
      overwrite buf (piece file ENTRY_POINT_START 4) j = file.getD (24 + j) 0 := by
    intro j hj
    unfold overwrite piece ENTRY_POINT_START
    rw [List.getElem?_take, if_pos hj, List.getElem?_drop, List.getD_eq_getElem?_getD,
      List.getElem?_eq_getElem (by omega)]
    rfl
  unfold entryPoint
  rw [hbyte 0 (by omega), hbyte 1 (by omega), hbyte 2 (by omega), hbyte 3 (by omega)]

/-- A file whose inode does not exist is refused. -/
theorem FindsEntry.missing (h : FindsEntry img command fr fs d fs')
    (hinode : img.num_inodes ≤ d.inode) : check_command img command fr fs = .refuse fs' := by
  obtain ⟨p, hparse, hfit, hlookup⟩ := h
  unfold check_command
  rw [hparse]
  dsimp only
  rw [if_neg (Nat.not_le.mpr hfit), hlookup]
  dsimp only
  rw [if_pos]
  unfold read_data
  rw [if_pos hinode]

/-- For the others the buffer decides, once the first four bytes have been read into it. -/
theorem FindsEntry.check (h : FindsEntry img command fr fs d fs')
    (hinode : d.inode < img.num_inodes) :
    (HasMagic (overwrite fr.buf ((img.file d.inode).take 4)) →
      ∃ x, check_command img command fr fs = .accept x ∧ x.inode = d.inode ∧
        (28 ≤ img.length d.inode → x.entry_point = entryPoint (img.file d.inode))) ∧
    (¬ HasMagic (overwrite fr.buf ((img.file d.inode).take 4)) →
      check_command img command fr fs = .refuse fs') := by
  obtain ⟨p, hparse, hfit, hlookup⟩ := h
  have hheader : (read_data img d.inode 0 4).stored = (img.file d.inode).take 4 :=
    read_data_first_block hinode (by decide)
  have hentry : (read_data img d.inode ENTRY_POINT_START 4).stored =
      piece (img.file d.inode) ENTRY_POINT_START 4 :=
    read_data_first_block hinode (by decide)
  unfold check_command
  rw [hparse]
  dsimp only
  rw [if_neg (Nat.not_le.mpr hfit), hlookup]
  dsimp only
  rw [if_neg (read_data_header_ret hinode), hheader, hentry]
  constructor
  · intro hmagic
    rw [if_neg (by unfold HasMagic at hmagic; tauto)]
    refine ⟨_, rfl, rfl, fun hlong => entry_of_overwrite _ ?_⟩
    rw [Image.length_file]
    exact hlong
  · intro hmagic
    rw [if_pos (by unfold HasMagic at hmagic; tauto)]

/-- What has been entered has passed the checks. -/
theorem check_command_of_enter {e : ℕ} {k' : Kernel}
    (h : execute_func_on img caller command fr k = some (k', .enterUser e)) :
    ∃ x, check_command img command fr k.fs = .accept x ∧ e = x.entry_point := by
  rcases execute_func_on_cases h with ⟨fs, -, hout, -⟩ | ⟨x, -, -, hout, -⟩ |
    ⟨x, p, hcheck, -, -, hout, -⟩
  · cases hout
  · cases hout
  · exact ⟨x, hcheck, Outcome.enterUser.inj hout⟩

/-- What has been refused has not been accepted. -/
theorem ChecksHeader.of_refuse (hcheck : check_command img command fr k.fs = .refuse fs') :
    ChecksHeader img caller command fr k d := by
  refine ⟨fun x hx => ?_, fun k' e hk' => ?_, fun _ => ⟨_, execute_func_on_refuse hcheck⟩⟩
  · rw [hcheck] at hx
    cases hx
  · obtain ⟨x, hx, -⟩ := check_command_of_enter hk'
    rw [hcheck] at hx
    cases hx

/-- The check is right if and only if the file has 28 bytes or what is left of it in the buffer,
with what was there before, is not the magic. -/
theorem header_checked_iff (h : FindsEntry img command fr k.fs d fs') :
    ChecksHeader img caller command fr k d ↔
      img.num_inodes ≤ d.inode ∨ 28 ≤ img.length d.inode ∨
        ¬ HasMagic (overwrite fr.buf ((img.file d.inode).take 4)) := by
  by_cases hinode : img.num_inodes ≤ d.inode
  · exact iff_of_true (ChecksHeader.of_refuse (h.missing hinode)) (Or.inl hinode)
  obtain ⟨haccept, hrefuse⟩ := h.check (Nat.lt_of_not_le hinode)
  by_cases hmagic : HasMagic (overwrite fr.buf ((img.file d.inode).take 4))
  swap
  · exact iff_of_true (ChecksHeader.of_refuse (hrefuse hmagic)) (Or.inr (Or.inr hmagic))
  obtain ⟨x, hx, -, hentry⟩ := haccept hmagic
  constructor
  · intro hright
    have hlong := (hright.accepted x hx).1.long
    rw [Image.length_file] at hlong
    exact Or.inr (Or.inl hlong)
  · intro hok
    have hlong : 28 ≤ img.length d.inode := by tauto
    have hlength : 28 ≤ (img.file d.inode).length := by
      rw [Image.length_file]
      exact hlong
    have hheader : HasHeader (img.file d.inode) :=
      ⟨hlength, (hasMagic_overwrite_iff fr.buf (by omega)).mp hmagic⟩
    refine ⟨fun y hy => ?_, fun k' e hk' => ?_, fun hno => absurd hheader hno⟩
    · rw [hx, CheckResult.accept.injEq] at hy
      exact ⟨hheader, hy ▸ hentry hlong⟩
    · obtain ⟨y, hy, he⟩ := check_command_of_enter hk'
      rw [hx, CheckResult.accept.injEq] at hy
      exact ⟨hheader, he.trans (hy ▸ hentry hlong)⟩

end

/-- The image with another size of its file: the three low bytes of the length. -/
def resizedImage (low mid high : UInt8) : Image := fun a =>
  if a = 4096 then low else if a = 4097 then mid else if a = 4098 then high else sampleImage a

def shellCommand : Bytes := literal shellName fun _ => 0

theorem exists_findsEntry (img : Image) (command : Bytes) (fr : Frame) (fs : FsGlobals) (n : ℕ)
    (h : ((parse_command command fr.parsed_command).any fun p =>
      decide (p.end_point - p.start_point < MAX_ARG) &&
        (read_dentry_by_name img p.parsed_command fs).any fun r => r.1.inode == n) = true) :
    ∃ d fs', FindsEntry img command fr fs d fs' ∧ d.inode = n := by
  obtain ⟨p, hparse, hp⟩ := (Option.any_eq_true _ _).mp h
  rw [Bool.and_eq_true, decide_eq_true_eq] at hp
  obtain ⟨r, hlookup, hr⟩ := (Option.any_eq_true _ _).mp hp.2
  exact ⟨r.1, r.2, ⟨p, hparse, hp.1, hlookup⟩, by simpa using hr⟩

theorem header_checked_sample : ∃ d, d.inode = 0 ∧
    ChecksHeader sampleImage .kernel shellCommand sampleFrame sampleKernel d := by
  obtain ⟨d, fs', hfind, hd⟩ := exists_findsEntry sampleImage shellCommand sampleFrame
    sampleKernel.fs 0 (by decide +kernel)
  refine ⟨d, hd, (header_checked_iff hfind).mpr (Or.inr (Or.inl ?_))⟩
  rw [hd]
  decide

/-- An earlier call has left the magic in the buffer. -/
def magicFrame : Frame := { sampleFrame with buf := fun j => elfMagic.getD j 0 }

/-- An empty file passes for an executable. -/
theorem header_not_checked : ¬ ∀ (img : Image) (caller : Caller) (command : Bytes) (fr : Frame)
    (k : Kernel) (d : Dentry) (fs' : FsGlobals), FindsEntry img command fr k.fs d fs' →
      ChecksHeader img caller command fr k d := by
  intro h
  obtain ⟨d, fs', hfind, hd⟩ := exists_findsEntry (resizedImage 0 0 0) shellCommand magicFrame
    sampleKernel.fs 0 (by decide +kernel)
  have hright := (header_checked_iff hfind).mp (h _ .kernel _ _ sampleKernel d fs' hfind)
  rw [hd] at hright
  revert hright
  decide +kernel

/-! ## The load -/

/-- A file that ends inside the program page, and whose blocks all exist. -/
structure Loadable (img : Image) (inode : ℕ) : Prop where
  fits : LOAD_START + img.length inode ≤ _132MB
  blocks : ∀ j, j * FOUR_KB < img.length inode → img.data_block inode j < img.num_data_blocks

/-- The byte the running process finds at an address of its program page. -/
def userByte (k : Kernel) (va : ℕ) : UInt8 := k.frame k.cur_pid (va - _128MB)

/-- A process has been started with its whole file from `LOAD_START` on, and nothing has been
stored anywhere else. -/
structure Loaded (img : Image) (x : Executable) (k k' : Kernel) : Prop where
  stored : (read_data img x.inode 0 x.fs.f_size).stored = img.file x.inode
  ends : LOAD_START + (read_data img x.inode 0 x.fs.f_size).stored.length ≤ _132MB
  page : UserPage k'.paging (2 + k'.cur_pid)
  byte : ∀ i (hi : i < (img.file x.inode).length),
    userByte k' (LOAD_START + i) = (img.file x.inode)[i]
  frame : ∀ p a, k'.frame p a ≠ k.frame p a →
    p = k'.cur_pid ∧ LOAD_START ≤ _128MB + a ∧ _128MB + a < _132MB
  console : k'.console = k.console

/-- What is started has been loaded, and what cannot be loaded is refused. -/
structure LoadsProgram (img : Image) (caller : Caller) (command : Bytes) (fr : Frame)
    (k : Kernel) : Prop where
  loaded : ∀ k' e, execute_func_on img caller command fr k = some (k', .enterUser e) →
    ∃ x, check_command img command fr k.fs = .accept x ∧ Loaded img x k k'
  refused : ∀ x, check_command img command fr k.fs = .accept x → ¬ Loadable img x.inode →
    ∃ k' v, execute_func_on img caller command fr k = some (k', .ret v) ∧ v < 0 ∧ Untouched k k'

section
variable {img : Image} {caller : Caller} {command : Bytes} {fr : Frame} {k k' : Kernel}
  {x : Executable} {p : Pid} {inode : ℕ}

theorem Loadable.covered (h : Loadable img inode) : Covered img inode := by
  refine ⟨?_, h.blocks⟩
  have hfits := h.fits
  unfold LOAD_START _132MB at hfits
  unfold FOUR_KB
  omega

/-- The loader is asked for all of a file that exists. -/
theorem check_command_file {fs : FsGlobals} (h : check_command img command fr fs = .accept x) :
    x.inode < img.num_inodes ∧ x.fs.f_size = img.length x.inode := by
  obtain ⟨p, d, hparse, hfit, hlookup, hinode, -⟩ := check_command_accept h
  constructor
  · by_contra hmissing
    rw [hinode] at hmissing
    have hfind : FindsEntry img command fr fs d x.fs := ⟨p, hparse, hfit, hlookup⟩
    rw [hfind.missing (Nat.le_of_not_lt hmissing)] at h
    cases h
  · rw [hinode]
    exact read_dentry_by_name_size hlookup

theorem Loadable.stored {fs : FsGlobals} (h : Loadable img x.inode)
    (hcheck : check_command img command fr fs = .accept x) :
    (read_data img x.inode 0 x.fs.f_size).stored = img.file x.inode := by
  obtain ⟨hinode, hsize⟩ := check_command_file hcheck
  rw [h.covered.stored hinode (Nat.zero_le _), hsize, piece, List.drop_zero, List.take_of_length_le]
  rw [Image.length_file]

/-- A program that ends inside its page, in memory. -/
theorem load_program_inside {bytes : List UInt8} (h : LOAD_START + bytes.length ≤ _132MB) :
    ∃ page : Bytes,
      load_program p bytes k = some { k with frame := Function.update k.frame p page } ∧
      (∀ i (hi : i < bytes.length), page (LOAD_START + i - _128MB) = bytes[i]) ∧
      ∀ a, page a ≠ k.frame p a → LOAD_START ≤ _128MB + a ∧ _128MB + a < _132MB := by
  have hstart : LOAD_START = 0x08048000 := rfl
  have hlow : _128MB = 0x8000000 := rfl
  have hhigh : _132MB = 0x8400000 := rfl
  unfold load_program
  dsimp only
  rw [if_pos (by omega)]
  refine ⟨_, rfl, fun i hi => ?_, fun a ha => ?_⟩
  · rw [if_pos (by omega), show LOAD_START + i - _128MB - (LOAD_START - _128MB) = i by omega,
      List.getElem?_eq_getElem hi]
    rfl
  · split_ifs at ha with hin
    · omega
    · exact absurd rfl ha

/-- What the loader leaves behind, for a file that can be loaded. -/
theorem Loadable.loaded {k₁ : Kernel} (h : Loadable img x.inode)
    (hcheck : check_command img command fr k.fs = .accept x)
    (hload : load_program p (read_data img x.inode 0 x.fs.f_size).stored (mapped x p k.cli) =
      some k₁) : Loaded img x k (started caller x p fr k k₁.frame k₁.console) := by
  have hstored := h.stored hcheck
  have hends : LOAD_START + (img.file x.inode).length ≤ _132MB := by
    rw [Image.length_file]
    exact h.fits
  obtain ⟨page, hpage, hbyte, hframe⟩ :=
    load_program_inside (p := p) (k := mapped x p k.cli) hends
  rw [hstored, hpage, Option.some.injEq] at hload
  subst hload
  refine ⟨hstored, hstored ▸ hends, remap_user_of_pid p k.paging, fun i hi => ?_,
    fun q a ha => ?_, rfl⟩
  · show Function.update k.frame p page p (LOAD_START + i - _128MB) = _
    rw [Function.update_self]
    exact hbyte i hi
  · have hne : Function.update k.frame p page q a ≠ k.frame q a := ha
    by_cases hq : q = p
    · rw [hq, Function.update_self] at hne
      exact ⟨hq, hframe a hne⟩
    · rw [Function.update_of_ne hq] at hne
      exact absurd rfl hne

/-- Loading is right if and only if, whenever the checks are passed and a number is free, the
file ends inside the page and has all its blocks. -/
theorem program_loaded_iff : LoadsProgram img caller command fr k ↔
    ∀ x, check_command img command fr k.fs = .accept x → (∃ p, k.pid_array p = false) →
      Loadable img x.inode := by
  constructor
  · rintro hright x hcheck ⟨p, hfree⟩
    by_contra hno
    obtain ⟨k', v, hex, -, -⟩ := hright.refused x hcheck hno
    -- a command that passes the checks is not refused while a number is free
    rcases execute_func_on_cases hex with ⟨fs, hrefuse, -⟩ | ⟨y, -, hfull, -⟩ |
      ⟨y, q, -, -, -, hout, -⟩
    · rw [hcheck] at hrefuse
      cases hrefuse
    · rw [hfull p] at hfree
      cases hfree
    · cases hout
  · intro hok
    refine ⟨fun k' e hex => ?_, fun x hcheck hno => ?_⟩
    · rcases execute_func_on_cases hex with ⟨fs, -, hout, -⟩ | ⟨x, -, -, hout, -⟩ |
        ⟨x, p, hcheck, hfree, -, -, k₁, hload, rfl⟩
      · cases hout
      · cases hout
      · exact ⟨x, hcheck, (hok x hcheck ⟨p, hfree⟩).loaded hcheck hload⟩
    · have hfull : ∀ p, k.pid_array p = true := by
        intro p
        by_contra hfree
        exact hno (hok x hcheck ⟨p, Bool.eq_false_iff.mpr hfree⟩)
      obtain ⟨k', hex⟩ : ∃ k', execute_func_on img caller command fr k = some (k', .ret (-2)) :=
        execute_func_on_full hcheck hfull
      exact ⟨k', -2, hex, by decide, (execute_func_on_fails hex).1⟩

end

/-- A file of 4000028 bytes, which would end behind the page. -/
def longImage : Image := resizedImage 0x1c 0x09 0x3d

/-- It passes the checks. -/
theorem program_not_loaded : ¬ ∀ (img : Image) (caller : Caller) (command : Bytes) (fr : Frame)
    (k : Kernel), LoadsProgram img caller command fr k := by
  intro h
  obtain ⟨d, fs', hfind, hd⟩ := exists_findsEntry longImage shellCommand sampleFrame
    (boot sampleMachine sampleMemory).fs 0 (by decide +kernel)
  have hinode : d.inode < longImage.num_inodes := by
    rw [hd]
    decide +kernel
  have hmagic : HasMagic (overwrite sampleFrame.buf ((longImage.file d.inode).take 4)) := by
    have hheader : (read_data longImage d.inode 0 4).stored = (longImage.file d.inode).take 4 :=
      read_data_first_block hinode (by decide)
    rw [← hheader, hd]
    decide +kernel
  obtain ⟨x, hx, hxd, -⟩ := (hfind.check hinode).1 hmagic
  have hload := program_loaded_iff.mp (h longImage .kernel shellCommand sampleFrame
    (boot sampleMachine sampleMemory)) x hx ⟨0, rfl⟩
  have hfits := hload.fits
  rw [hxd, hd] at hfits
  revert hfits
  decide +kernel

end Kernel391
