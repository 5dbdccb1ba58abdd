import Kernel391.CommandTheorems
import Kernel391.Lib.Traced
import Kernel391.Names

/-!
# What `execute` makes of its command

The words of a command are those of its text, and the parser mixes in what lies around it:
the padding of `parsed_command` starts at an index of the command and may leave a stale byte
behind the word, and the search for the argument starts one byte behind the first word, even
if that was the NUL. The argument is copied before the name is looked up, with no check of its
length. Here it is worked out when the name looked up is the first word
(`first_word_looked_up_iff`), and when the argument is the second (`argument_from_text_iff`).
-/

namespace Kernel391

open Trace Words

/-! ## The name looked up -/

/-- Where a word would begin behind the NUL. -/
def stray_start (command : Bytes) : ℕ := scan (· == 0x20) command (strlen command + 1)

/-- The string handed to `read_dentry_by_name`. The call is not reached with a first word that
is too long, nor with an argument that overruns its array. -/
def looked_up (command : Bytes) (fr : Frame) : Option Bytes :=
  match parse_command command fr.parsed_command with
  | none => none
  | some p =>
    if p.end_point - p.start_point ≥ MAX_ARG then none else some p.parsed_command

/-- The four bytes an executable starts with. -/
def HasMagic (buf : Bytes) : Prop :=
  buf 0 = 0x7f ∧ buf 1 = 0x45 ∧ buf 2 = 0x4c ∧ buf 3 = 0x46

instance (buf : Bytes) : Decidable (HasMagic buf) := by
  unfold HasMagic
  infer_instance

/-- The name in a buffer is that of a file which passes for an executable, once its header has
been read over what `buf` holds. -/
def NamesExecutable (img : Image) (name buf : Bytes) (fs : FsGlobals) : Prop :=
  ∃ d fs', read_dentry_by_name img name fs = some (d, fs') ∧
    (read_data img d.inode 0 4).ret ≠ -1 ∧
    HasMagic (overwrite buf (read_data img d.inode 0 4).stored)

/-- A first word that fits the buffer is the string to be looked up, and without one, or with a
longer one, `execute` returns -1 and starts nothing. -/
structure RunsFirstWord (m : Machine) (caller : Caller) (command : Bytes) (fr : Frame)
    (k : Kernel) : Prop where
  lookup : firstWord isSpace (text command) ≠ [] →
    (firstWord isSpace (text command)).length ≤ MAX_PARSED →
      ∃ name, looked_up command fr = some name ∧
        HoldsBytes name (firstWord isSpace (text command))
  refuse : firstWord isSpace (text command) = [] ∨
      MAX_PARSED < (firstWord isSpace (text command)).length →
    ∃ k', execute_func m caller command fr k = some (k', .ret (-1)) ∧
      k'.pid_array = k.pid_array ∧ k'.cur_pid = k.cur_pid

/-- A word that fits is padded, or followed by a zero that was there before. Without a word the
zeros and what the buffer held before them name no executable. Either way the argument found,
which may lie behind the NUL, does not overrun its array. -/
structure FirstWordOk (m : Machine) (command : Bytes) (fr : Frame) (k : Kernel) : Prop where
  padded : firstWord isSpace (text command) ≠ [] →
    (firstWord isSpace (text command)).length ≤ MAX_PARSED →
      command 0 ≠ 0x20 ∧ (firstWord isSpace (text command)).length < MAX_PARSED ∨
        fr.parsed_command (firstWord isSpace (text command)).length = 0
  stale : firstWord isSpace (text command) = [] →
    ¬ NamesExecutable m.img (fun j => if strlen command ≤ j ∧ j < MAX_PARSED then 0
      else fr.parsed_command j) fr.buf k.fs
  argument : (firstWord isSpace (text command)).length ≤ MAX_PARSED →
    argument_stop command - argument_start command < MAX_ARG

section
variable {m : Machine} {caller : Caller} {command : Bytes} {fr : Frame} {k k' : Kernel}
  {out : Outcome}

/-- `execute` returns -1 if and only if its command is refused. -/
theorem execute_func_refuses_iff :
    (∃ k', execute_func m caller command fr k = some (k', .ret (-1)) ∧
      k'.pid_array = k.pid_array ∧ k'.cur_pid = k.cur_pid) ↔
      ∃ fs, check_command m.img command fr k.fs = .refuse fs := by
  constructor
  · rintro ⟨k', hex, -⟩
    rcases execute_func_cases hex with ⟨fs, hcheck, -⟩ | ⟨x, -, -, hout, -⟩ |
      ⟨x, p, -, -, -, hout, -⟩
    · exact ⟨fs, hcheck⟩
    · rw [Outcome.ret.injEq] at hout
      omega
    · cases hout
  · rintro ⟨fs, hcheck⟩
    refine ⟨{ k with fs := fs, intf := true }, ?_, rfl, rfl⟩
    unfold execute_func execute_func_on
    dsimp only
    rw [show check_command m.img command fr k.cli.fs = .refuse fs from hcheck]
    rfl

/-- A command that has been parsed is refused unless its second word is too long or the string
looked up is the name of an executable. -/
theorem check_command_refuses_iff {img : Image} {fs : FsGlobals} {p : Parsed}
    (hparse : parse_command command fr.parsed_command = some p) :
    (∃ fs', check_command img command fr fs = .refuse fs') ↔
      ∃ name, looked_up command fr = some name ∧ ¬ NamesExecutable img name fr.buf fs := by
  unfold check_command NamesExecutable looked_up
  rw [hparse]
  dsimp only
  by_cases hlong : p.end_point - p.start_point ≥ MAX_ARG
  · rw [if_pos hlong, if_pos hlong]
    refine iff_of_false ?_ ?_
    · rintro ⟨fs', h⟩
      cases h
    · rintro ⟨name, h, -⟩
      cases h
  rw [if_neg hlong, if_neg hlong]
  simp only [Option.some.injEq, exists_eq_left']
  cases hlookup : read_dentry_by_name img p.parsed_command fs with
  | none =>
    refine iff_of_true ⟨fs, rfl⟩ ?_
    rintro ⟨d, fs', h, -⟩
    cases h
  | some found =>
    obtain ⟨d, fs₁⟩ := found
    dsimp only
    by_cases hret : (read_data img d.inode 0 4).ret = -1
    · rw [if_pos hret]
      refine iff_of_true ⟨fs₁, rfl⟩ ?_
      rintro ⟨d', fs', h, hread, -⟩
      cases h
      exact hread hret
    rw [if_neg hret]
    by_cases hmagic : HasMagic (overwrite fr.buf (read_data img d.inode 0 4).stored)
    · rw [if_neg (by unfold HasMagic at hmagic; tauto)]
      refine iff_of_false ?_ fun h => h ⟨d, fs₁, rfl, hret, hmagic⟩
      rintro ⟨fs', h⟩
      cases h
    · rw [if_pos (by unfold HasMagic at hmagic; tauto)]
      refine iff_of_true ⟨fs₁, rfl⟩ ?_
      rintro ⟨d', fs', h, -, hm⟩
      cases h
      exact hmagic hm

/-- There is no leading space. -/
theorem word_start_eq_zero_iff (h : Terminated command) :
    word_start command = 0 ↔ command 0 ≠ 0x20 := by
  have hlt := h.strlen_lt
  constructor
  · intro hzero
    rw [← hzero]
    exact (scan_spaces (Nat.zero_le _) (by omega) h.nul).2.1
  · intro hne
    have hstop : (command 0 == 0x20) = false := by
      simpa using hne
    exact Nat.le_zero.mp (scan_le (p := (· == 0x20)) (Nat.le_refl 0) hstop)

theorem length_firstWord (h : Terminated command) :
    (firstWord isSpace (text command)).length = word_stop command - word_start command := by
  rw [firstWord_command h, length_segment]

theorem firstWord_eq_nil_iff (h : Terminated command) :
    firstWord isSpace (text command) = [] ↔ word_stop command = word_start command := by
  have hle : word_start command ≤ word_stop command := word_start_le_stop
  rw [← List.length_eq_zero_iff, length_firstWord h]
  omega

/-- A command without a word is spaces up to its end. -/
theorem word_start_of_empty (h : Terminated command)
    (hempty : word_stop command = word_start command) : word_start command = strlen command := by
  have hat := word_at h
  refine Nat.le_antisymm (word_start_le h) ?_
  by_contra hlt
  have hfirst := hat.first (Nat.lt_of_not_le hlt)
  have hbehind := hat.behind (by omega)
  rw [hempty, hfirst] at hbehind
  cases hbehind

/-- What the buffer holds for a word that fits. -/
theorem holdsBytes_firstWord_iff (h : Terminated command) {parsed : Bytes} {p : Parsed}
    (hne : word_start command < word_stop command)
    (hval : ∀ j, p.parsed_command j =
      if word_stop command ≤ j ∧ j < MAX_PARSED then 0
      else if j < word_stop command - word_start command then command (word_start command + j)
      else parsed j) :
    HoldsBytes p.parsed_command (firstWord isSpace (text command)) ↔
      word_start command = 0 ∧ word_stop command - word_start command < MAX_PARSED ∨
        parsed (word_stop command - word_start command) = 0 := by
  unfold HoldsBytes
  rw [and_iff_right, length_firstWord h, hval, if_neg (Nat.lt_irrefl _)]
  · by_cases hpad : word_stop command ≤ word_stop command - word_start command ∧
        word_stop command - word_start command < MAX_PARSED
    · rw [if_pos hpad]
      exact iff_of_true rfl (Or.inl ⟨by omega, hpad.2⟩)
    · rw [if_neg hpad]
      exact (or_iff_right fun hzero => hpad ⟨by omega, hzero.2⟩).symm
  · intro j hj
    have hlen := length_firstWord h
    rw [hval, if_neg (by omega), if_pos (by omega)]
    simp only [firstWord_command h, getElem_segment]

/-- What is looked up if the argument fits its array. -/
theorem looked_up_eq_some_iff {p : Parsed} {name : Bytes}
    (hparse : parse_command command fr.parsed_command = some p) :
    looked_up command fr = some name ↔
      p.end_point - p.start_point < MAX_ARG ∧ p.parsed_command = name := by
  unfold looked_up
  rw [hparse]
  dsimp only
  by_cases hlong : p.end_point - p.start_point ≥ MAX_ARG
  · rw [if_pos hlong]
    refine iff_of_false ?_ fun h => absurd h.1 (Nat.not_lt.mpr hlong)
    intro h
    cases h
  · rw [if_neg hlong, Option.some.injEq, and_iff_right (Nat.lt_of_not_le hlong)]

/-- The string for the lookup is a word that fits if and only if a zero comes behind it and the
argument has fitted too. -/
theorem looked_up_iff (h : Terminated command) (hne : firstWord isSpace (text command) ≠ [])
    (hfit : (firstWord isSpace (text command)).length ≤ MAX_PARSED) :
    (∃ name, looked_up command fr = some name ∧
      HoldsBytes name (firstWord isSpace (text command))) ↔
      (command 0 ≠ 0x20 ∧ (firstWord isSpace (text command)).length < MAX_PARSED ∨
        fr.parsed_command (firstWord isSpace (text command)).length = 0) ∧
      argument_stop command - argument_start command < MAX_ARG := by
  have hlen := length_firstWord h
  have hle : word_start command ≤ word_stop command := word_start_le_stop
  rw [ne_eq, firstWord_eq_nil_iff h] at hne
  rw [hlen] at hfit
  obtain ⟨p, hparse, hval, hstart, hstop⟩ := parse_command_eq h fr.parsed_command hfit
  have hiff := holdsBytes_firstWord_iff h (by omega) hval
  rw [hlen, ← word_start_eq_zero_iff h, ← hiff, ← hstart, ← hstop]
  simp only [looked_up_eq_some_iff hparse]
  constructor
  · rintro ⟨name, ⟨harg, rfl⟩, hholds⟩
    exact ⟨hholds, harg⟩
  · rintro ⟨hholds, harg⟩
    exact ⟨p.parsed_command, ⟨harg, rfl⟩, hholds⟩

/-- Without a word, stale bytes with zeros behind them are looked up. -/
theorem refuses_without_word_iff {img : Image} {fs : FsGlobals} (h : Terminated command)
    (hnil : firstWord isSpace (text command) = []) :
    (∃ fs', check_command img command fr fs = .refuse fs') ↔
      argument_stop command - argument_start command < MAX_ARG ∧
        ¬ NamesExecutable img (fun j => if strlen command ≤ j ∧ j < MAX_PARSED then 0
          else fr.parsed_command j) fr.buf fs := by
  rw [firstWord_eq_nil_iff h] at hnil
  have hend := word_start_of_empty h hnil
  obtain ⟨p, hparse, hval, hstart, hstop⟩ := parse_command_eq h fr.parsed_command (by omega)
  have hbuffer : p.parsed_command = fun j => if strlen command ≤ j ∧ j < MAX_PARSED then 0
      else fr.parsed_command j := by
    funext j
    rw [hval j, hnil, hend, if_neg (show ¬ j < strlen command - strlen command by omega)]
  rw [check_command_refuses_iff hparse, ← hstart, ← hstop, ← hbuffer]
  simp only [looked_up_eq_some_iff hparse]
  constructor
  · rintro ⟨name, ⟨harg, rfl⟩, hnot⟩
    exact ⟨harg, hnot⟩
  · rintro ⟨harg, hnot⟩
    exact ⟨p.parsed_command, ⟨harg, rfl⟩, hnot⟩

theorem refuses_long_word {img : Image} {fs : FsGlobals} (h : Terminated command)
    (hlong : MAX_PARSED < (firstWord isSpace (text command)).length) :
    check_command img command fr fs = .refuse fs := by
  rw [length_firstWord h] at hlong
  unfold check_command
  rw [parse_command_long h fr.parsed_command hlong]

/-- `execute` looks up the first word, and refuses a command without one or with one that is too
long, if and only if the buffer's stale bytes do not get in the way and the argument fits. -/
theorem first_word_looked_up_iff (h : Terminated command) :
    RunsFirstWord m caller command fr k ↔ FirstWordOk m command fr k := by
  constructor
  · intro hruns
    have hrefuse : firstWord isSpace (text command) = [] → _ := fun hnil =>
      (refuses_without_word_iff h hnil).mp
        (execute_func_refuses_iff.mp (hruns.refuse (Or.inl hnil)))
    refine ⟨fun hne hfit => ((looked_up_iff h hne hfit).mp (hruns.lookup hne hfit)).1,
      fun hnil => (hrefuse hnil).2, fun hfit => ?_⟩
    by_cases hnil : firstWord isSpace (text command) = []
    · exact (hrefuse hnil).1
    · exact ((looked_up_iff h hnil hfit).mp (hruns.lookup hnil hfit)).2
  · intro hok
    refine ⟨fun hne hfit => (looked_up_iff h hne hfit).mpr
      ⟨hok.padded hne hfit, hok.argument hfit⟩, fun hbad => ?_⟩
    rw [execute_func_refuses_iff]
    rcases hbad with hnil | hlong
    · have hfit : (firstWord isSpace (text command)).length ≤ MAX_PARSED := by
        rw [hnil]
        exact Nat.zero_le _
      exact (refuses_without_word_iff h hnil).mpr ⟨hok.argument hfit, hok.stale hnil⟩
    · exact ⟨k.fs, refuses_long_word h hlong⟩

end

/-- A plain word. -/
def plainCommand : Bytes := literal ['l', 's'] fun _ => 0

theorem first_word_looked_up_sample :
    RunsFirstWord sampleMachine .kernel plainCommand sampleFrame sampleKernel := by
  have hword : firstWord isSpace (text plainCommand) = [0x6c, 0x73] := by decide +kernel
  refine (first_word_looked_up_iff ⟨2, by decide, rfl⟩).mpr
    ⟨fun _ _ => ?_, fun hnil => ?_, fun _ => ?_⟩
  · left
    rw [hword]
    decide
  · rw [hword] at hnil
    cases hnil
  · decide +kernel

/-- One leading space, and a buffer that is not zeroed. -/
def spacedCommand : Bytes := literal [' ', 'l', 's'] fun _ => 0

def staleFrame : Frame := { sampleFrame with parsed_command := fun _ => 0x78 }

/-- The name looked up is `lsx`. -/
theorem first_word_not_looked_up :
    ¬ RunsFirstWord sampleMachine .kernel spacedCommand staleFrame sampleKernel := by
  intro h
  have hword : firstWord isSpace (text spacedCommand) = [0x6c, 0x73] := by decide +kernel
  obtain ⟨name, hname, hholds⟩ := h.lookup (by rw [hword]; simp) (by rw [hword]; decide)
  rw [hword] at hholds
  have hstale : (looked_up spacedCommand staleFrame).map (fun name => name 2) = some 0x78 := by
    decide +kernel
  rw [hname, Option.map_some, Option.some.injEq] at hstale
  have hnul : name 2 = 0 := hholds.2
  rw [hnul] at hstale
  cases hstale

/-! ## The argument stored -/

/-- Something follows the first word, or what is left in memory behind the NUL begins no word. -/
def ArgumentInside (command : Bytes) : Prop :=
  afterFirst isSpace (text command) ≠ [] ∨ ¬ WordChar (command (stray_start command))

instance (command : Bytes) : Decidable (ArgumentInside command) := by
  unfold ArgumentInside
  infer_instance

section
variable {m : Machine} {caller : Caller} {command : Bytes} {fr : Frame} {k k' : Kernel} {e : ℕ}

/-- What an accepted command names, and what its argument has been copied from. -/
theorem check_command_accept {img : Image} {fs : FsGlobals} {x : Executable}
    (h : check_command img command fr fs = .accept x) :
    ∃ p d, parse_command command fr.parsed_command = some p ∧
      p.end_point - p.start_point < MAX_ARG ∧
      read_dentry_by_name img p.parsed_command fs = some (d, x.fs) ∧ x.inode = d.inode ∧
      x.argument = copyArgument command p fr.argument := by
  unfold check_command at h
  cases hparse : parse_command command fr.parsed_command with
  | none =>
    rw [hparse] at h
    cases h
  | some p =>
    rw [hparse] at h
    dsimp only at h
    by_cases hlong : p.end_point - p.start_point ≥ MAX_ARG
    · rw [if_pos hlong] at h
      cases h
    rw [if_neg hlong] at h
    cases hlookup : read_dentry_by_name img p.parsed_command fs with
    | none =>
      rw [hlookup] at h
      cases h
    | some found =>
      obtain ⟨d, fs'⟩ := found
      rw [hlookup] at h
      dsimp only at h
      split_ifs at h
      rw [CheckResult.accept.injEq] at h
      rw [← h]
      exact ⟨p, d, rfl, Nat.lt_of_not_le hlong, hlookup, rfl, rfl⟩

/-- The argument is what the scans behind the first word have found, and fits its buffer. -/
theorem check_command_argument (h : Terminated command) {img : Image} {fs : FsGlobals}
    {x : Executable} (hcheck : check_command img command fr fs = .accept x) :
    HoldsBytes x.argument
        (segment command (argument_start command) (argument_stop command)) ∧
      argument_stop command - argument_start command < MAX_ARG := by
  obtain ⟨p, d, hparse, hfit, -, -, harg⟩ := check_command_accept hcheck
  obtain ⟨hstart, hstop⟩ := parse_command_range h fr.parsed_command hparse
  rw [← hstart, ← hstop, harg]
  exact ⟨copyArgument_holds fr.argument, hfit⟩

theorem segment_argument_ne_zero :
    ∀ c ∈ segment command (argument_start command) (argument_stop command), c ≠ 0 := by
  intro c hc
  obtain ⟨j, hstart, hstop, rfl⟩ := mem_segment.mp hc
  exact (wordChar_of_scan hstart hstop).2

theorem text_of_argument (h : Terminated command) {img : Image} {fs : FsGlobals}
    {x : Executable} (hcheck : check_command img command fr fs = .accept x) :
    text x.argument = segment command (argument_start command) (argument_stop command) := by
  obtain ⟨hholds, hfit⟩ := check_command_argument h hcheck
  have hmax : MAX_ARG = 1024 := rfl
  refine hholds.text_eq segment_argument_ne_zero ?_
  rw [length_segment]
  unfold addressSpace
  omega

/-- The new process finds the run that starts behind the first word and the byte after it. -/
theorem stored_argument (h : Terminated command)
    (hex : execute_func m caller command fr k = some (k', .enterUser e)) :
    text (k'.pcb k'.cur_pid).arg =
      segment command (argument_start command) (argument_stop command) := by
  rcases execute_func_cases hex with ⟨fs, -, hout, -⟩ | ⟨x, -, -, hout, -⟩ |
    ⟨x, p, hcheck, -, -, -, frame, console, -, rfl⟩
  · cases hout
  · cases hout
  obtain ⟨hholds, hfit⟩ := check_command_argument h hcheck
  have hmax : MAX_ARG = 1024 := rfl
  have hterminated : Terminated x.argument := by
    refine ⟨_, ?_, hholds.2⟩
    rw [length_segment]
    unfold addressSpace
    omega
  show text ((started caller x p fr k frame console).pcb p).arg = _
  rw [started_pcb_self]
  show text (strcpy (k.pcb p).arg x.argument) = _
  rw [text_strcpy hterminated, text_of_argument h hcheck]

/-- It is the second word if and only if the search has not found one behind the NUL. -/
theorem argument_inside_iff (h : Terminated command) :
    segment command (argument_start command) (argument_stop command) =
      secondWord isSpace (text command) ↔ ArgumentInside command := by
  unfold ArgumentInside
  by_cases hspace : word_stop command < strlen command
  · rw [secondWord_command h hspace]
    exact iff_of_true rfl (Or.inl ((afterFirst_ne_nil_iff h).mpr hspace))
  · have hend : word_stop command = strlen command := by
      have hle := word_stop_le h
      omega
    have hstart : argument_start command = stray_start command := by
      unfold argument_start stray_start
      rw [hend]
    rw [or_iff_right fun hne => hspace ((afterFirst_ne_nil_iff h).mp hne),
      secondWord_of_end h hend, ← hstart, ← argument_stop_eq_start_iff,
      ← List.length_eq_zero_iff, length_segment]
    have hle : argument_start command ≤ argument_stop command := argument_start_le_stop
    omega

end

/-- Two commands with one text leave the same argument, the second word of the text, if and only
if neither takes it from behind the NUL. -/
theorem argument_from_text_iff {m : Machine} {c₁ c₂ : Caller} {a b : Bytes} {fr₁ fr₂ : Frame}
    {k₁ k₂ k₁' k₂' : Kernel} {e₁ e₂ : ℕ} (h : Terminated a) (hab : ∀ j ≤ strlen a, a j = b j)
    (hex₁ : execute_func m c₁ a fr₁ k₁ = some (k₁', .enterUser e₁))
    (hex₂ : execute_func m c₂ b fr₂ k₂ = some (k₂', .enterUser e₂)) :
    text (k₁'.pcb k₁'.cur_pid).arg = text (k₂'.pcb k₂'.cur_pid).arg ∧
        text (k₁'.pcb k₁'.cur_pid).arg = secondWord isSpace (text a) ↔
      ArgumentInside a ∧ ArgumentInside b := by
  have hb : Terminated b := by
    refine ⟨strlen a, h.strlen_lt, ?_⟩
    rw [← hab _ (Nat.le_refl _)]
    exact h.nul
  rw [stored_argument h hex₁, stored_argument hb hex₂, ← argument_inside_iff h,
    ← argument_inside_iff hb, text_congr h hab]
  constructor
  · rintro ⟨hsame, hword⟩
    exact ⟨hword, hsame ▸ hword⟩
  · rintro ⟨h₁, h₂⟩
    exact ⟨h₁.trans h₂.symm, h₁⟩

/-- The name of the shell, and what an earlier command left behind it. -/
def reusedCommand (left : UInt8) : Bytes := literal shellName fun j => if j = 6 then left else 0

/-- Both start a shell. -/
theorem reusedCommand_starts (left : UInt8)
    (h : (execute_func sampleMachine .kernel (reusedCommand left) sampleFrame sampleKernel).map
      Prod.snd = some (.enterUser 0x08048000)) :
    ∃ k, execute_func sampleMachine .kernel (reusedCommand left) sampleFrame sampleKernel =
      some (k, .enterUser 0x08048000) := by
  rw [Option.map_eq_some_iff] at h
  obtain ⟨⟨k, out⟩, hex, hout⟩ := h
  dsimp only at hout
  exact ⟨k, hout ▸ hex⟩

theorem argument_from_text_sample : ∃ k₁ k₂ : Kernel,
    text (k₁.pcb k₁.cur_pid).arg = text (k₂.pcb k₂.cur_pid).arg ∧
      text (k₁.pcb k₁.cur_pid).arg = secondWord isSpace (text (reusedCommand 0)) := by
  obtain ⟨k₁, h₁⟩ := reusedCommand_starts 0 (by decide +kernel)
  obtain ⟨k₂, h₂⟩ := reusedCommand_starts 0x20 (by decide +kernel)
  refine ⟨k₁, k₂, (argument_from_text_iff ⟨5, by decide, rfl⟩ (by decide +kernel) h₁ h₂).mpr ?_⟩
  decide +kernel

/-- The second shell is given the argument `x`. -/
theorem argument_not_from_text :
    ¬ ∀ (m : Machine) (c : Caller) (a b : Bytes) (fr : Frame) (k k₁ k₂ : Kernel) (e₁ e₂ : ℕ),
      Terminated a → (∀ j ≤ strlen a, a j = b j) →
      execute_func m c a fr k = some (k₁, .enterUser e₁) →
      execute_func m c b fr k = some (k₂, .enterUser e₂) →
        text (k₁.pcb k₁.cur_pid).arg = text (k₂.pcb k₂.cur_pid).arg ∧
          text (k₁.pcb k₁.cur_pid).arg = secondWord isSpace (text a) := by
  intro h
  obtain ⟨k₁, h₁⟩ := reusedCommand_starts 0 (by decide +kernel)
  obtain ⟨k₂, h₂⟩ := reusedCommand_starts 0x78 (by decide +kernel)
  obtain ⟨hsame, -⟩ := h _ _ _ _ _ _ _ _ _ _ ⟨5, by decide, rfl⟩ (by decide +kernel) h₁ h₂
  rw [stored_argument ⟨5, by decide, rfl⟩ h₁, stored_argument ⟨5, by decide, rfl⟩ h₂] at hsame
  revert hsame
  decide +kernel

end Kernel391
