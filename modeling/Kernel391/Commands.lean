import Kernel391.Process
import Kernel391.Texts

/-!
# How a command is split

The parser of `execute` walks its command with one index: over leading spaces, through the
first word, which it copies, over one byte more and the spaces behind it, and through the
second word. Here the places where it stops are given names, and what it leaves in its
buffer is read off them (`parse_command_eq`, `parse_command_long`).
-/

namespace Kernel391

open Words

/-- A character of a word: neither the separator nor the end of the string. -/
def WordChar (c : UInt8) : Prop := c ≠ 0x20 ∧ c ≠ 0

instance (c : UInt8) : Decidable (WordChar c) := by
  unfold WordChar
  infer_instance

def isSpace (c : UInt8) : Bool := c == 0x20

/-! ## Where the parser stops -/

/-- The index of the first word. -/
def word_start (command : Bytes) : ℕ := scan (· == 0x20) command 0

/-- The index behind it. -/
def word_stop (command : Bytes) : ℕ :=
  scan (fun c => c != 0x20 && c != 0) command (word_start command)

/-- The index of the second word, searched from one byte further on. -/
def argument_start (command : Bytes) : ℕ := scan (· == 0x20) command (word_stop command + 1)

def argument_stop (command : Bytes) : ℕ :=
  scan (fun c => c != 0x20 && c != 0) command (argument_start command)

theorem wordChar_iff {c : UInt8} : (c != 0x20 && c != 0) = true ↔ WordChar c := by
  unfold WordChar
  simp

theorem isSpace_iff {c : UInt8} : isSpace c = true ↔ c = 0x20 := by
  unfold isSpace
  simp

section
variable {command : Bytes} {i n : ℕ}

/-- A scan over spaces stops at the NUL or before. -/
theorem scan_spaces (hin : i ≤ n) (hn : n < i + addressSpace) (hnul : command n = 0) :
    scan (· == 0x20) command i ≤ n ∧ command (scan (· == 0x20) command i) ≠ 0x20 ∧
      ∀ j, i ≤ j → j < scan (· == 0x20) command i → command j = 0x20 := by
  have hstop : (command n == 0x20) = false := by
    rw [hnul]
    rfl
  refine ⟨scan_le (p := (· == 0x20)) hin hstop, ?_, fun j hij hj => ?_⟩
  · have hend := scan_stop (p := (· == 0x20)) hin hn hstop
    simpa using hend
  · have hrun := scan_run (p := (· == 0x20)) hij hj
    simpa using hrun

/-- So does a scan over a word. -/
theorem scan_word (hin : i ≤ n) (hn : n < i + addressSpace) (hnul : command n = 0) :
    scan (fun c => c != 0x20 && c != 0) command i ≤ n ∧
      ¬ WordChar (command (scan (fun c => c != 0x20 && c != 0) command i)) := by
  have hstop : (command n != 0x20 && command n != 0) = false := by
    rw [hnul]
    rfl
  refine ⟨scan_le (p := fun c => c != 0x20 && c != 0) hin hstop, ?_⟩
  rw [← wordChar_iff, Bool.not_eq_true]
  exact scan_stop (p := fun c => c != 0x20 && c != 0) hin hn hstop

theorem wordChar_of_scan {j : ℕ} (hij : i ≤ j)
    (hj : j < scan (fun c => c != 0x20 && c != 0) command i) : WordChar (command j) :=
  wordChar_iff.mp (scan_run (p := fun c => c != 0x20 && c != 0) hij hj)

theorem word_start_le_stop : word_start command ≤ word_stop command := le_scan

theorem lt_argument_start : word_stop command < argument_start command := le_scan

theorem argument_start_le_stop : argument_start command ≤ argument_stop command := le_scan

/-- An argument is found unless the scan for it starts at its end. -/
theorem argument_stop_eq_start_iff :
    argument_stop command = argument_start command ↔
      ¬ WordChar (command (argument_start command)) := by
  constructor
  · intro heq hchar
    have hstep : argument_stop command =
        scanFuel (fun c => c != 0x20 && c != 0) command (addressSpace - 1)
          (argument_start command + 1) := by
      unfold argument_stop scan
      rw [show addressSpace = addressSpace - 1 + 1 by rfl, scanFuel,
        if_pos (wordChar_iff.mpr hchar)]
      rfl
    have hle : argument_start command + 1 ≤ scanFuel (fun c => c != 0x20 && c != 0) command
      (addressSpace - 1) (argument_start command + 1) := le_scanFuel
    omega
  · intro hchar
    rw [← wordChar_iff, Bool.not_eq_true] at hchar
    exact Nat.le_antisymm (scan_le (Nat.le_refl _) hchar) argument_start_le_stop

variable (h : Terminated command)
include h

theorem word_start_le : word_start command ≤ strlen command :=
  (scan_spaces (Nat.zero_le _) (Nat.lt_of_lt_of_le h.strlen_lt (Nat.le_add_left _ _)) h.nul).1

theorem word_stop_le : word_stop command ≤ strlen command :=
  (scan_word (word_start_le h) (Nat.lt_of_lt_of_le h.strlen_lt (Nat.le_add_left _ _)) h.nul).1

/-- The parser's indices delimit the first word of the text. -/
theorem word_at : WordAt isSpace command 0 (strlen command) (word_start command)
    (word_stop command) := by
  have hlt := h.strlen_lt
  have hstart := word_start_le h
  obtain ⟨-, hfirst, hspaces⟩ := scan_spaces (Nat.zero_le _) (by omega) h.nul
  obtain ⟨-, hend⟩ := scan_word hstart (by omega) h.nul
  refine ⟨Nat.zero_le _, word_start_le_stop, word_stop_le h, fun j hj hjs => ?_,
    fun j hj hje => ?_, fun _ => ?_, fun he => ?_⟩
  · exact isSpace_iff.mpr (hspaces j hj hjs)
  · have hchar := wordChar_of_scan hj hje
    rw [← Bool.not_eq_true, isSpace_iff]
    exact hchar.1
  · rw [← Bool.not_eq_true, isSpace_iff]
    exact hfirst
  · rw [isSpace_iff]
    by_contra hspace
    exact hend ⟨hspace, ne_zero_of_lt_strlen he⟩

theorem firstWord_command : firstWord isSpace (text command) =
    segment command (word_start command) (word_stop command) :=
  (word_at h).firstWord_eq

theorem afterFirst_command : afterFirst isSpace (text command) =
    segment command (word_stop command) (strlen command) :=
  (word_at h).afterFirst_eq

/-- Something follows the first word if its end is not that of the string. -/
theorem afterFirst_ne_nil_iff :
    afterFirst isSpace (text command) ≠ [] ↔ word_stop command < strlen command := by
  rw [afterFirst_command h, ne_eq, ← List.length_eq_zero_iff, length_segment]
  omega

/-- Then the second word is the one the parser finds. -/
theorem argument_at (hspace : word_stop command < strlen command) :
    WordAt isSpace command (word_stop command) (strlen command) (argument_start command)
      (argument_stop command) := by
  have hlt := h.strlen_lt
  obtain ⟨hstart, hfirst, hspaces⟩ :=
    scan_spaces (i := word_stop command + 1) hspace (by omega) h.nul
  obtain ⟨hstop, hend⟩ := scan_word hstart (by omega) h.nul
  refine ⟨Nat.le_of_lt lt_argument_start, argument_start_le_stop, hstop, fun j hj hja => ?_,
    fun j hj hje => ?_, fun _ => ?_, fun he => ?_⟩
  · by_cases hj' : j = word_stop command
    · rw [hj']
      exact (word_at h).behind hspace
    · exact isSpace_iff.mpr (hspaces j (by omega) hja)
  · have hchar := wordChar_of_scan hj hje
    rw [← Bool.not_eq_true, isSpace_iff]
    exact hchar.1
  · rw [← Bool.not_eq_true, isSpace_iff]
    exact hfirst
  · rw [isSpace_iff]
    by_contra hne
    exact hend ⟨hne, ne_zero_of_lt_strlen he⟩

theorem secondWord_command (hspace : word_stop command < strlen command) :
    secondWord isSpace (text command) =
      segment command (argument_start command) (argument_stop command) := by
  rw [secondWord, afterFirst_command h]
  exact (argument_at h hspace).firstWord_eq

/-- Without anything behind the first word there is no second. -/
theorem secondWord_of_end (hend : word_stop command = strlen command) :
    secondWord isSpace (text command) = [] := by
  rw [secondWord, afterFirst_command h, hend, segment_of_le (Nat.le_refl _)]
  rfl

end

/-! ## The copy of the first word -/

/-- The loop copies a word that fits the buffer, and stops behind it. -/
theorem copyWord_eq {command : Bytes} {start i stop : ℕ} (n : ℕ) (parsed : Bytes)
    (hstart : start ≤ i) (hi : i ≤ stop) (hn : stop ≤ i + n)
    (hword : ∀ j, i ≤ j → j < stop → WordChar (command j))
    (hstop : stop < i + n → ¬ WordChar (command stop)) (hfit : stop - start ≤ MAX_PARSED) :
    ∃ parsed', copyWord command start n i parsed = some (stop, parsed') ∧
      ∀ j, parsed' j =
        if i - start ≤ j ∧ j < stop - start then command (start + j) else parsed j := by
  induction n generalizing i parsed with
  | zero =>
    obtain rfl : i = stop := by omega
    refine ⟨parsed, rfl, fun j => ?_⟩
    rw [if_neg]
    omega
  | succ n ih =>
    rw [copyWord]
    by_cases hend : i = stop
    · subst hend
      have hsep := hstop (by omega)
      unfold WordChar at hsep
      rw [if_pos (by tauto)]
      refine ⟨parsed, rfl, fun j => ?_⟩
      rw [if_neg]
      omega
    · have hchar := hword i (Nat.le_refl i) (by omega)
      have hroom : ¬ i - start > MAX_PARSED - 1 := by omega
      obtain ⟨parsed', hrun, hval⟩ := ih (i := i + 1)
        (Function.update parsed (i - start) (command i)) (by omega) (by omega) (by omega)
        (fun j hj hje => hword j (by omega) hje) (fun hlt => hstop (by omega))
      refine ⟨parsed', ?_, fun j => ?_⟩
      · rw [if_neg (by rintro (h | h); exacts [hchar.1 h, hchar.2 h]), if_neg hroom, hrun]
      · rw [hval j]
        by_cases hj : j = i - start
        · subst hj
          rw [if_neg (by omega), if_pos (by omega), Function.update_self]
          congr 1
          omega
        · rw [Function.update_of_ne hj]
          by_cases hin : i + 1 - start ≤ j ∧ j < stop - start
          · rw [if_pos hin, if_pos (by omega)]
          · rw [if_neg hin, if_neg (by omega)]

/-- It gives up on a longer one. -/
theorem copyWord_long {command : Bytes} {start i stop : ℕ} (n : ℕ) (parsed : Bytes)
    (hstart : start ≤ i) (hi : i - start ≤ MAX_PARSED) (hn : stop ≤ i + n)
    (hword : ∀ j, i ≤ j → j < stop → WordChar (command j)) (hlong : MAX_PARSED < stop - start) :
    copyWord command start n i parsed = none := by
  induction n generalizing i parsed with
  | zero => omega
  | succ n ih =>
    have hchar := hword i (Nat.le_refl i) (by omega)
    rw [copyWord, if_neg (by rintro (h | h); exacts [hchar.1 h, hchar.2 h])]
    by_cases hfull : i - start > MAX_PARSED - 1
    · rw [if_pos hfull]
    · have hmax : MAX_PARSED = 10 := rfl
      rw [if_neg hfull]
      exact ih _ (by omega) (by omega) (by omega) fun j hj hje => hword j (by omega) hje

/-! ## The parser -/

section
variable {command : Bytes} (h : Terminated command) (parsed : Bytes)
include h

/-- A first word that fits the buffer is copied there. -/
theorem copy_first_word (hfit : word_stop command - word_start command ≤ MAX_PARSED) :
    ∃ parsed', copyWord command (word_start command) (strlen command - word_start command)
        (word_start command) parsed = some (word_stop command, parsed') ∧
      ∀ j, parsed' j = if j < word_stop command - word_start command
        then command (word_start command + j) else parsed j := by
  have hle := word_start_le h
  have hstop := word_stop_le h
  have hlt := h.strlen_lt
  obtain ⟨-, hend⟩ := scan_word hle (by omega) h.nul
  obtain ⟨parsed', hcopy, hval⟩ := copyWord_eq (strlen command - word_start command) parsed
    (Nat.le_refl (word_start command)) word_start_le_stop (by omega)
    (fun j hj hje => wordChar_of_scan hj hje) (fun _ => hend) hfit
  refine ⟨parsed', hcopy, fun j => ?_⟩
  rw [hval j, Nat.sub_self]
  simp only [Nat.zero_le, true_and]

theorem copy_long_word (hlong : MAX_PARSED < word_stop command - word_start command) :
    copyWord command (word_start command) (strlen command - word_start command)
      (word_start command) parsed = none := by
  have hstop := word_stop_le h
  exact copyWord_long (strlen command - word_start command) parsed
    (Nat.le_refl (word_start command)) (by omega) (show word_stop command ≤ _ by omega)
    (fun j hj hje => wordChar_of_scan hj hje) hlong

/-- Padding starts at the index of its end in the command. -/
theorem parse_command_eq (hfit : word_stop command - word_start command ≤ MAX_PARSED) :
    ∃ p, parse_command command parsed = some p ∧
      (∀ j, p.parsed_command j =
        if word_stop command ≤ j ∧ j < MAX_PARSED then 0
        else if j < word_stop command - word_start command then command (word_start command + j)
        else parsed j) ∧
      p.start_point = argument_start command ∧ p.end_point = argument_stop command := by
  obtain ⟨parsed', hcopy, hval⟩ := copy_first_word h parsed hfit
  refine ⟨
    { parsed_command := fun j => if word_stop command ≤ j ∧ j < MAX_PARSED then 0 else parsed' j
      start_point := argument_start command
      end_point := argument_stop command }, ?_, fun j => ?_, rfl, rfl⟩
  · unfold parse_command
    dsimp only
    rw [show scan (· == 0x20) command 0 = word_start command from rfl, hcopy]
    rfl
  · dsimp only
    rw [hval j]

/-- A longer one makes the parser fail. -/
theorem parse_command_long (hlong : MAX_PARSED < word_stop command - word_start command) :
    parse_command command parsed = none := by
  unfold parse_command
  dsimp only
  rw [show scan (· == 0x20) command 0 = word_start command from rfl,
    copy_long_word h parsed hlong]
  rfl

/-- Whatever the parser accepts, its second word is the one behind its first. -/
theorem parse_command_range {p : Parsed} (hparse : parse_command command parsed = some p) :
    p.start_point = argument_start command ∧ p.end_point = argument_stop command := by
  have hfit : word_stop command - word_start command ≤ MAX_PARSED := by
    by_contra hlong
    rw [parse_command_long h parsed (Nat.lt_of_not_le hlong)] at hparse
    cases hparse
  obtain ⟨p', hparse', -, hstart, hstop⟩ := parse_command_eq h parsed hfit
  rw [hparse, Option.some.injEq] at hparse'
  rw [hparse']
  exact ⟨hstart, hstop⟩

end

/-- The argument is the run of word characters the parser found. -/
theorem copyArgument_holds {command : Bytes} {p : Parsed} (argument : Bytes) :
    HoldsBytes (copyArgument command p argument) (segment command p.start_point p.end_point) := by
  refine ⟨fun j hj => ?_, ?_⟩
  · rw [getElem_segment]
    rw [length_segment] at hj
    exact if_pos hj
  · rw [length_segment]
    unfold copyArgument
    rw [if_neg (Nat.lt_irrefl _), if_pos rfl]

end Kernel391
