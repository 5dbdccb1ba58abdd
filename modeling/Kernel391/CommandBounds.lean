import Kernel391.CommandWords

/-!
# The parser and its buffers

`parseTraced` is the parser with each access to the command, to `parsed_command` and to
`argument` noted, and `result_parseTraced` says that it is the parser. It stays inside the three
if and only if there is something behind the first word, and the second fits
(`parser_inside_iff`).
-/

namespace Kernel391

open Trace Words

/-! ## The parser's accesses -/

/-- A byte of the command is read, or one of the two buffers is written. -/
inductive ParserAccess where
  | readCommand (i : ℕ)
  | storeParsed (i : ℕ)
  | storeArgument (i : ℕ)
deriving DecidableEq

open ParserAccess

/-- The scan of the command, with its reads. -/
def scanTraced (p : UInt8 → Bool) (command : Bytes) : ℕ → ℕ → Traced ParserAccess ℕ
  | 0, i => pure i
  | fuel + 1, i => do
    Traced.emit (readCommand i)
    if p (command i) then scanTraced p command fuel (i + 1) else pure i

def copyWordTraced (command : Bytes) (start_point : ℕ) :
    ℕ → ℕ → Bytes → Traced ParserAccess (ℕ × Bytes)
  | 0, i, parsed => pure (i, parsed)
  | n + 1, i, parsed => do
    Traced.emit (readCommand i)
    if command i = 0x20 ∨ command i = 0 then pure (i, parsed)
    else if i - start_point > MAX_PARSED - 1 then Traced.ofOption none
    else do
      Traced.emit (storeParsed (i - start_point))
      copyWordTraced command start_point n (i + 1)
        (Function.update parsed (i - start_point) (command i))

/-- The copy of `n` bytes to `argument`, and the NUL. -/
def copyArgumentSteps (start_point n : ℕ) : List ParserAccess :=
  ((List.range n).flatMap fun j => [readCommand (start_point + j), storeArgument j]) ++
    [storeArgument n]

/-- The parser behind the first word, which ends at index `i`. -/
def argumentTraced (command : Bytes) (i : ℕ) : Traced ParserAccess (ℕ × ℕ) := do
  let start_point ← scanTraced (· == 0x20) command addressSpace (i + 1)
  Traced.emits ((List.range' i (MAX_PARSED - i)).map storeParsed)
  let end_point ← scanTraced (fun c => c != 0x20 && c != 0) command addressSpace start_point
  Traced.emits (copyArgumentSteps start_point (end_point - start_point))
  pure (start_point, end_point)

def parseTraced (command parsed : Bytes) : Traced ParserAccess Parsed := do
  let start_point ← scanTraced (· == 0x20) command addressSpace 0
  let length_cmd ← scanTraced (· != 0) command addressSpace 0
  let r ← copyWordTraced command start_point (length_cmd - start_point) start_point parsed
  let points ← argumentTraced command r.1
  pure
    { parsed_command := fun j => if r.1 ≤ j ∧ j < MAX_PARSED then 0 else r.2 j
      start_point := points.1
      end_point := points.2 }

/-! ## It is the parser -/

theorem result_scanTraced (p : UInt8 → Bool) (command : Bytes) (fuel i : ℕ) :
    (scanTraced p command fuel i).result = some (scanFuel p command fuel i) := by
  induction fuel generalizing i with
  | zero => rfl
  | succ fuel ih =>
    rw [scanTraced, scanFuel, Traced.result_bind, Traced.result_emit, Option.bind_some,
      Traced.result_ite, ih]
    split_ifs
    · rfl
    · rfl

theorem result_copyWordTraced (command : Bytes) (start n i : ℕ) (parsed : Bytes) :
    (copyWordTraced command start n i parsed).result = copyWord command start n i parsed := by
  induction n generalizing i parsed with
  | zero => rfl
  | succ n ih =>
    rw [copyWordTraced, copyWord, Traced.result_bind, Traced.result_emit, Option.bind_some,
      Traced.result_ite, Traced.result_ite, Traced.result_bind, Traced.result_emit,
      Option.bind_some, ih]
    rfl

/-- The trace changes nothing. -/
theorem result_parseTraced (command parsed : Bytes) :
    (parseTraced command parsed).result = parse_command command parsed := by
  unfold parseTraced argumentTraced parse_command
  simp only [Traced.result_bind, result_scanTraced, result_copyWordTraced, Option.bind_some,
    Traced.result_emits, Traced.result_pure]
  rfl

/-! ## What it reads and writes -/

theorem always_scanTraced {P : ParserAccess → Prop} {p : UInt8 → Bool} {command : Bytes}
    {fuel i : ℕ} : Traced.Always P (scanTraced p command fuel i) ↔
      ∀ j, i ≤ j → j ≤ scanFuel p command fuel i → j < i + fuel → P (readCommand j) := by
  induction fuel generalizing i with
  | zero =>
    refine iff_of_true (Traced.always_pure i) fun j hi _ hj => ?_
    omega
  | succ fuel ih =>
    rw [scanTraced, scanFuel, Traced.always_bind, Traced.always_emit]
    by_cases hp : p (command i) = true
    · simp only [if_pos hp, ih]
      constructor
      · rintro ⟨hread, hrest⟩ j hij hj hlt
        by_cases hji : j = i
        · rw [hji]
          exact hread
        · exact hrest () rfl j (by omega) hj (by omega)
      · intro hall
        have hle : i + 1 ≤ scanFuel p command fuel (i + 1) := le_scanFuel
        refine ⟨hall i (Nat.le_refl i) (by omega) (by omega), fun _ _ j hij hj hlt => ?_⟩
        exact hall j (by omega) hj (by omega)
    · simp only [if_neg hp]
      constructor
      · rintro ⟨hread, -⟩ j hij hj hlt
        rw [Nat.le_antisymm hj hij]
        exact hread
      · intro hall
        exact ⟨hall i (Nat.le_refl i) (Nat.le_refl i) (by omega), fun _ _ => Traced.always_pure i⟩

/-- The access lies in its buffer, and a read up to the NUL. -/
def InBuffer (command : Bytes) : ParserAccess → Prop
  | readCommand i => i ≤ strlen command
  | storeParsed i => i < MAX_PARSED
  | storeArgument i => i < MAX_ARG

/-- The loop over the first word checks its index. -/
theorem always_copyWordTraced {command : Bytes} {start n i : ℕ} (parsed : Bytes)
    (hn : i + n ≤ strlen command) :
    Traced.Always (InBuffer command) (copyWordTraced command start n i parsed) := by
  induction n generalizing i parsed with
  | zero => exact Traced.always_pure _
  | succ n ih =>
    rw [copyWordTraced, Traced.always_bind, Traced.always_emit]
    refine ⟨show i ≤ strlen command by omega, fun _ _ => ?_⟩
    split_ifs with hend hfull
    · exact Traced.always_pure _
    · intro e he
      exact absurd he List.not_mem_nil
    · rw [Traced.always_bind, Traced.always_emit]
      have hmax : MAX_PARSED = 10 := rfl
      refine ⟨show i - start < MAX_PARSED by omega, fun _ _ => ?_⟩
      exact ih _ (by omega)

theorem always_copyArgumentSteps {command : Bytes} {start n : ℕ}
    (hread : start + n ≤ strlen command + 1) :
    (∀ e ∈ copyArgumentSteps start n, InBuffer command e) ↔ n < MAX_ARG := by
  unfold copyArgumentSteps
  constructor
  · intro hall
    exact hall (storeArgument n) (List.mem_append_right _ (List.mem_singleton_self _))
  · intro hn e he
    rcases List.mem_append.mp he with hcopy | hlast
    · rw [List.mem_flatMap] at hcopy
      obtain ⟨j, hj, hstep⟩ := hcopy
      rw [List.mem_range] at hj
      simp only [List.mem_cons, List.not_mem_nil, or_false] at hstep
      rcases hstep with rfl | rfl
      · show start + j ≤ strlen command
        omega
      · show j < MAX_ARG
        omega
    · rw [List.mem_singleton.mp hlast]
      exact hn

section
variable {command : Bytes} (h : Terminated command) (parsed : Bytes)
include h

/-- A scan that starts before the NUL reads no further. -/
theorem always_scan_inside {p : UInt8 → Bool} {i : ℕ} (hi : i ≤ strlen command)
    (hstop : p 0 = false) :
    Traced.Always (InBuffer command) (scanTraced p command addressSpace i) := by
  rw [always_scanTraced]
  intro j hij hj hlt
  refine Nat.le_trans hj (scan_le hi ?_)
  rw [h.nul]
  exact hstop

omit h in
/-- The padding checks its index as well. -/
theorem padding_inside (i : ℕ) :
    ∀ e ∈ (List.range' i (MAX_PARSED - i)).map storeParsed, InBuffer command e := by
  intro e he
  obtain ⟨j, hj, rfl⟩ := List.mem_map.mp he
  have hrange := List.mem_range'_1.mp hj
  show j < MAX_PARSED
  omega

/-- Behind the first word the parser stays inside if that is not the end of the command and the
second word fits. -/
theorem always_argumentTraced :
    Traced.Always (InBuffer command) (argumentTraced command (word_stop command)) ↔
      word_stop command < strlen command ∧
        argument_stop command - argument_start command < MAX_ARG := by
  have hle : argument_start command ≤ argument_stop command := argument_start_le_stop
  unfold argumentTraced
  simp only [Traced.always_bind, Traced.always_emits, result_scanTraced, Traced.result_emits,
    Option.some.injEq, forall_eq', Traced.always_pure, implies_true, and_true, forall_const]
  rw [and_iff_right (padding_inside (word_stop command)),
    show scanFuel (· == 0x20) command addressSpace (word_stop command + 1) =
      argument_start command from rfl,
    show scanFuel (fun c => c != 0x20 && c != 0) command addressSpace (argument_start command) =
      argument_stop command from rfl]
  -- one byte behind the first word is read in any case
  have hread : Traced.Always (InBuffer command)
      (scanTraced (· == 0x20) command addressSpace (word_stop command + 1)) →
        word_stop command < strlen command := by
    rw [always_scanTraced]
    intro hall
    exact hall _ (Nat.le_refl _) le_scanFuel (by unfold addressSpace; omega)
  by_cases hspace : word_stop command < strlen command
  · have hstop := (argument_at h hspace).stop_le
    rw [and_iff_right hspace, and_iff_right (always_scan_inside h hspace rfl),
      and_iff_right (always_scan_inside h (Nat.le_trans hle hstop) rfl)]
    exact always_copyArgumentSteps (by omega)
  · exact iff_of_false (fun hall => hspace (hread hall.1)) fun hok => hspace hok.1

/-- A first word that is too long ends the parse before that. -/
theorem always_parseTraced :
    Traced.Always (InBuffer command) (parseTraced command parsed) ↔
      MAX_PARSED < word_stop command - word_start command ∨
        word_stop command < strlen command ∧
          argument_stop command - argument_start command < MAX_ARG := by
  have hstart := word_start_le h
  unfold parseTraced
  rw [Traced.always_bind, and_iff_right (always_scan_inside h (Nat.zero_le _) rfl)]
  simp only [result_scanTraced, Option.some.injEq, forall_eq']
  rw [Traced.always_bind, and_iff_right (always_scan_inside h (Nat.zero_le _) rfl)]
  simp only [result_scanTraced, Option.some.injEq, forall_eq']
  rw [show scanFuel (· == 0x20) command addressSpace 0 = word_start command from rfl,
    show scanFuel (· != 0) command addressSpace 0 = strlen command from rfl,
    Traced.always_bind, and_iff_right (always_copyWordTraced parsed (by omega)),
    result_copyWordTraced]
  by_cases hlong : MAX_PARSED < word_stop command - word_start command
  · rw [copy_long_word h parsed hlong]
    refine iff_of_true (fun r hr => ?_) (Or.inl hlong)
    cases hr
  · obtain ⟨parsed', hcopy, -⟩ := copy_first_word h parsed (Nat.le_of_not_lt hlong)
    rw [hcopy, or_iff_right hlong, ← always_argumentTraced h]
    simp only [Option.some.injEq, forall_eq', Traced.always_bind, Traced.always_pure,
      implies_true, and_true]

end

/-! ## Inside the buffers -/

/-- The parser stays inside the command and its buffers, and the copy of an accepted argument
inside the field of the PCB. -/
structure ParsesInside (img : Image) (command : Bytes) (fr : Frame) : Prop where
  accesses : Traced.Always (InBuffer command) (parseTraced command fr.parsed_command)
  pcb : ∀ fs x, check_command img command fr fs = .accept x → strlen x.argument < MAX_ARG

/-- The first word is too long, or something follows it and the second is not. -/
def ParserOk (command : Bytes) : Prop :=
  MAX_PARSED < (firstWord isSpace (text command)).length ∨
    afterFirst isSpace (text command) ≠ [] ∧
      (secondWord isSpace (text command)).length < MAX_ARG

instance (command : Bytes) : Decidable (ParserOk command) := by
  unfold ParserOk
  infer_instance

theorem parser_inside_iff {img : Image} {command : Bytes} {fr : Frame} (h : Terminated command) :
    ParsesInside img command fr ↔ ParserOk command := by
  have hcopy : ∀ fs x, check_command img command fr fs = .accept x →
      strlen x.argument < MAX_ARG := by
    intro fs x hcheck
    rw [← text_length, text_of_argument h hcheck, length_segment]
    exact (check_command_argument h hcheck).2
  have hiff : ParserOk command ↔ MAX_PARSED < word_stop command - word_start command ∨
      word_stop command < strlen command ∧
        argument_stop command - argument_start command < MAX_ARG := by
    unfold ParserOk
    rw [length_firstWord h, afterFirst_ne_nil_iff h]
    refine or_congr_right (and_congr_right fun hspace => ?_)
    rw [secondWord_command h hspace, length_segment]
  rw [hiff, ← always_parseTraced h fr.parsed_command]
  exact ⟨fun hinside => hinside.accesses, fun hall => ⟨hall, hcopy⟩⟩

/-- The command `ls -l`. -/
def twoWordCommand : Bytes := literal ['l', 's', ' ', '-', 'l'] fun _ => 0

theorem parser_inside_sample : ParsesInside sampleImage twoWordCommand sampleFrame :=
  (parser_inside_iff ⟨5, by decide, rfl⟩).mpr (by decide +kernel)

/-- The byte behind the NUL of `ls` is read. -/
theorem parser_not_inside : ¬ ParsesInside sampleImage plainCommand sampleFrame := by
  intro h
  have hread := h.accesses (readCommand 3) (by decide +kernel)
  revert hread
  show ¬ 3 ≤ strlen plainCommand
  decide +kernel

end Kernel391
