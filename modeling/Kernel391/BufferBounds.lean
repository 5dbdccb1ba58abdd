import Kernel391.Lib.Traced
import Kernel391.LineInput

/-!
# The ends of the line buffers

Every function that touches `keyboard_buffer` or a `term_key_buf`, with the indices it uses.
Characters stop at length 127, Tab and Enter at 128, and both tests are for equality: a
buffer filled to 128 by Tab or Enter lets the next character through. The clearing loops go
up to the length inclusive, and Backspace over a line feed looks at the character before it,
also where there is none. `buffer_bounds_iff` says that nothing else goes wrong, for keys,
readers, pieces of terminal switches and the clearing in `halt` in any order.
-/

namespace Kernel391

open Trace TransitionSystem

/-! ## Accesses -/

/-- An element of `keyboard_buffer`, or of the `term_key_buf` of a terminal. -/
inductive BufferAccess where
  | line (i : ℕ)
  | backup (t : TermId) (i : ℕ)

namespace BufferAccess

def index : BufferAccess → ℕ
  | line i => i
  | backup _ i => i

def Inside (a : BufferAccess) : Prop := a.index < KEYBOARD_BUFFER_SIZE

theorem inside_line {i : ℕ} : (line i).Inside ↔ i < KEYBOARD_BUFFER_SIZE := Iff.rfl

end BufferAccess

open BufferAccess

def appendTraced (curr_term : TermId) (c : UInt8) (s : Console) : Traced BufferAccess Console := do
  Traced.emit (line s.length_key)
  pure (append_key curr_term c s)

def clearLineTraced (s : Console) : Traced BufferAccess Console := do
  Traced.emits ((List.range (s.length_key + 1)).map line)
  pure (clear_keyboard_buffer s)

def clearBackupTraced (t : TermId) (s : Console) : Traced BufferAccess Console := do
  Traced.emits ((List.range ((s.term t).len_key_buf + 1)).map (backup t))
  pure (clear_keyboard_backup t s)

/-- `memcpy` between the live buffer and that of a terminal. -/
def copyAccesses (t : TermId) : List BufferAccess :=
  (List.range KEYBOARD_BUFFER_SIZE).flatMap fun i => [line i, backup t i]

/-! ## Keys -/

/-- Backspace over a line feed. The loop reads its character in each turn. -/
def lineFeedTraced (s : Console) : Traced BufferAccess Console := do
  let before := (s.keyboard_buffer (keyIndex s 2)).c
  Traced.emits (if s.length_key > 1 then [line (keyIndex s 2)] else [])
  if s.length_key > 1 ∧ before = 0x0a then
    pure { s with current_location := s.current_location - NUM_COLS * 2 }
  else do
    Traced.emit (line (keyIndex s 2))
    let loc ← Traced.ofOption
      (searchBack s.vmem before (s.current_location + 1).toNat s.current_location)
    pure { s with current_location := loc + 2 }

def backspaceTraced (curr_term : TermId) (s : Console) : Traced BufferAccess Console :=
  if s.current_location = 0 then pure s
  else if s.length_key = 0 then pure s
  else do
    let last := (s.keyboard_buffer (keyIndex s 1)).c
    Traced.emit (line (keyIndex s 1))
    let s ←
      (if last = 0x09 then pure { s with current_location := s.current_location - 8 }
        else if last = 0x0a then lineFeedTraced s
        else
          let loc := s.current_location - 2
          let s := (s.store (VIDEO + loc) 0).store (VIDEO + loc + 1) (attrib curr_term)
          pure { s with current_location := loc })
    Traced.emit (line (keyIndex s 1))
    pure (eraseKey s)

/-- `process_char` with its accesses. -/
def processTraced (curr_term : TermId) (scode : ℕ) (s : Console) :
    Traced BufferAccess (Console × ℕ) :=
  if scode = BACKSPACE then do
    let s ← backspaceTraced curr_term s
    pure (s, 0)
  else if scode = TAB then
    if s.length_key = KEYBOARD_BUFFER_SIZE then pure (s, 0)
    else do
      let s ← appendTraced curr_term 0x09 (handle_tab s)
      pure (s, 0)
  else if scode = ENTER then
    if s.length_key = KEYBOARD_BUFFER_SIZE then pure (s, 0)
    else do
      let s ← appendTraced curr_term 0x0a (handle_enter curr_term s)
      pure (s, 0)
  else if scode = LETTER_L ∧ s.ctrl_pressed then do
    let s ← clearLineTraced
      { clear curr_term s with current_location := 0, ctrl_pressed := false }
    pure (s, 0)
  else if IsCharacter scode s then
    if s.length_key = KEYBOARD_BUFFER_SIZE - 1 then pure (s, 0)
    else do
      let s' ← appendTraced curr_term (scancode_map s.key_mode scode) s
      pure (echo curr_term (scancode_map s.key_mode scode) s', 0)
  else
    -- the other keys set a mode or ask for a switch or a halt
    Traced.ofOption (process_char curr_term scode s)

theorem result_backspaceTraced (t : TermId) (s : Console) :
    (backspaceTraced t s).result = handle_backspace t s := by
  unfold backspaceTraced handle_backspace
  by_cases hloc : s.current_location = 0
  · rw [if_pos hloc, if_pos hloc]
    rfl
  by_cases hempty : s.length_key = 0
  · rw [if_neg hloc, if_neg hloc, if_pos hempty, if_pos hempty]
    rfl
  rw [if_neg hloc, if_neg hloc, if_neg hempty, if_neg hempty]
  unfold lineFeedTraced
  dsimp only
  generalize searchBack s.vmem (s.keyboard_buffer (keyIndex s 2)).c
    (s.current_location + 1).toNat s.current_location = found
  cases found with
  | none => split_ifs <;> rfl
  | some loc => split_ifs <;> rfl

/-- The trace changes nothing. -/
theorem result_processTraced (t : TermId) (scode : ℕ) (s : Console) :
    (processTraced t scode s).result = process_char t scode s := by
  unfold processTraced
  by_cases hback : scode = BACKSPACE
  · rw [if_pos hback, hback, process_char_backspace, Traced.result_bind, result_backspaceTraced]
    cases handle_backspace t s <;> rfl
  rw [if_neg hback]
  by_cases htab : scode = TAB
  · rw [if_pos htab, htab, process_char_tab]
    split_ifs
    · rfl
    · rfl
  rw [if_neg htab]
  by_cases henter : scode = ENTER
  · rw [if_pos henter, henter, process_char_enter]
    split_ifs
    · rfl
    · rfl
  rw [if_neg henter]
  by_cases hclear : scode = LETTER_L ∧ s.ctrl_pressed = true
  · rw [if_pos hclear, hclear.1, process_char_clear t s hclear.2]
    rfl
  rw [if_neg hclear]
  by_cases hchar : IsCharacter scode s
  · rw [if_pos hchar, process_char_character hchar]
    unfold process_key
    split_ifs
    · rfl
    · rfl
  · rw [if_neg hchar]
    rfl

/-! ## Readers, terminal switches and `halt` -/

inductive BufferEvent where
  /-- `process_char` for a byte from the keyboard. -/
  | key (scode : ℕ)
  /-- `save_term_info`, up to the end of `clear_keyboard_backup`. -/
  | saveCursor
  /-- Its `memcpy` of the line. -/
  | saveLine
  /-- `clear_keyboard_buffer`, at its end and in `halt`. -/
  | clearLine
  /-- `clear_keyboard_backup` in `halt`. -/
  | clearBackup (t : TermId)
  | restore (new_term : TermId)
  /-- `curr_term` changes. -/
  | display (t : TermId)
  /-- Another terminal's process runs. -/
  | tick (next : TermId)
  /-- It calls `terminal_read`. -/
  | read (nbytes : ℤ)
  /-- Its call goes on. -/
  | readStep

/-- One piece of `terminal_read`. -/
def readTraced (s : InputState) : Traced BufferAccess InputState := do
  Traced.emits
    (match s.reader s.running_term with
      | .loading _ i _ => [line i]
      | .clearing _ _ => (List.range (s.console.length_key + 1)).map line
      | _ => [])
  Traced.ofOption s.readStep

/-- One event. The pieces of a switch may come in any order. -/
def bufferStep (s : InputState) : BufferEvent → Traced BufferAccess InputState
  | .key scode => do
    let r ← processTraced s.curr_term scode s.console
    pure { s with console := r.1 }
  | .saveCursor => do
    let console ← clearBackupTraced s.curr_term (s.console.modTerm s.curr_term fun i => { i with
      cursor_x := UInt32.ofInt s.console.screen_x
      cursor_y := UInt32.ofInt s.console.screen_y
      cursor_location := s.console.current_location
      len_key_buf := s.console.length_key })
    pure { s with console := console }
  | .saveLine => do
    Traced.emits (copyAccesses s.curr_term)
    pure { s with console := saveLine s.curr_term s.console }
  | .clearLine => do
    let console ← clearLineTraced s.console
    pure { s with console := console }
  | .clearBackup t => do
    let console ← clearBackupTraced t s.console
    pure { s with console := console }
  | .restore new_term => do
    Traced.emits (copyAccesses new_term)
    pure { s with console := restore_term_info new_term s.console }
  | .display t => pure { s with curr_term := t }
  | .tick next => pure { s with running_term := next }
  | .read nbytes =>
    match s.reader s.running_term with
    | .idle => pure (s.setReader (.waiting nbytes))
    | _ => Traced.ofOption none
  | .readStep => readTraced s

def bufferSystem : System InputState BufferEvent where
  init := lineInput.init
  step s e := (bufferStep s e).result

/-! ## What keeps within the buffers -/

/-- The lengths fit the buffers. -/
structure LengthsBounded (s : Console) : Prop where
  live : s.length_key ≤ KEYBOARD_BUFFER_SIZE
  saved : ∀ t, (s.term t).len_key_buf ≤ KEYBOARD_BUFFER_SIZE

/-- The lengths fit afterwards, and no access is outside. -/
def StaysInBuffers (s : InputState) (e : BufferEvent) : Prop :=
  (∀ s', bufferSystem.step s e = some s' → LengthsBounded s'.console) ∧
    Traced.Always BufferAccess.Inside (bufferStep s e)

/-- Characters and Ctrl+L do not meet a full buffer, and Backspace does not meet a line feed
that is the only character. -/
def KeyFits (scode : ℕ) (s : Console) : Prop :=
  (IsCharacter scode s ∨ scode = LETTER_L ∧ s.ctrl_pressed = true →
    s.length_key ≠ KEYBOARD_BUFFER_SIZE) ∧
  ¬ (scode = BACKSPACE ∧ s.current_location ≠ 0 ∧ s.length_key = 1 ∧
    (s.keyboard_buffer 0).c = 0x0a)

instance (scode : ℕ) (s : Console) : Decidable (KeyFits scode s) := by
  unfold KeyFits
  infer_instance

/-- The call is about to clear the line. -/
def Reader.Clearing : Reader → Prop
  | .clearing _ _ => True
  | _ => False

instance : DecidablePred Reader.Clearing
  | .clearing _ _ => .isTrue trivial
  | .idle => .isFalse id
  | .waiting _ => .isFalse id
  | .entered _ => .isFalse id
  | .copying _ _ _ => .isFalse id
  | .loading _ _ _ => .isFalse id
  | .counting _ _ _ => .isFalse id
  | .adjusting _ => .isFalse id

/-- Nothing clears a full buffer, and the keys fit. -/
def KeepsBuffers (s : InputState) : BufferEvent → Prop
  | .key scode => KeyFits scode s.console
  | .saveCursor => s.console.length_key ≠ KEYBOARD_BUFFER_SIZE
  | .clearLine => s.console.length_key ≠ KEYBOARD_BUFFER_SIZE
  | .clearBackup t => (s.console.term t).len_key_buf ≠ KEYBOARD_BUFFER_SIZE
  | .readStep => (s.reader s.running_term).Clearing → s.console.length_key ≠ KEYBOARD_BUFFER_SIZE
  | _ => True

instance (s : InputState) (e : BufferEvent) : Decidable (KeepsBuffers s e) := by
  cases e <;> unfold KeepsBuffers <;> infer_instance

/-! ## One key -/

/-- A loop from 0 to the length inclusive. -/
theorem clearing_inside_iff {n : ℕ} {f : ℕ → BufferAccess} (hf : ∀ i, (f i).index = i)
    (hn : n ≤ KEYBOARD_BUFFER_SIZE) :
    (∀ a ∈ (List.range (n + 1)).map f, a.Inside) ↔ n ≠ KEYBOARD_BUFFER_SIZE := by
  rw [List.forall_mem_map]
  constructor
  · intro h
    have hlast := h n (List.mem_range.mpr (Nat.lt_succ_self n))
    rw [BufferAccess.Inside, hf] at hlast
    omega
  · intro hne i hi
    rw [List.mem_range] at hi
    rw [BufferAccess.Inside, hf]
    omega

theorem copyAccesses_inside (t : TermId) : ∀ a ∈ copyAccesses t, a.Inside := by
  intro a ha
  unfold copyAccesses at ha
  rw [List.mem_flatMap] at ha
  obtain ⟨i, hi, ha⟩ := ha
  rw [List.mem_cons, List.mem_singleton] at ha
  rcases ha with rfl | rfl
  · exact List.mem_range.mp hi
  · exact List.mem_range.mp hi

section
variable {t : TermId} {scode : ℕ} {s s' : Console}

theorem always_appendTraced (c : UInt8) :
    Traced.Always BufferAccess.Inside (appendTraced t c s) ↔
      s.length_key < KEYBOARD_BUFFER_SIZE := by
  unfold appendTraced
  rw [Traced.always_bind, Traced.always_emit]
  exact and_iff_left fun _ _ => Traced.always_pure _

theorem always_clearLineTraced (hlen : s.length_key ≤ KEYBOARD_BUFFER_SIZE) :
    Traced.Always BufferAccess.Inside (clearLineTraced s) ↔
      s.length_key ≠ KEYBOARD_BUFFER_SIZE := by
  unfold clearLineTraced
  rw [Traced.always_bind, Traced.always_emits,
    and_iff_left fun _ _ => Traced.always_pure _]
  exact clearing_inside_iff (fun _ => rfl) hlen

theorem always_clearBackupTraced (hlen : (s.term t).len_key_buf ≤ KEYBOARD_BUFFER_SIZE) :
    Traced.Always BufferAccess.Inside (clearBackupTraced t s) ↔
      (s.term t).len_key_buf ≠ KEYBOARD_BUFFER_SIZE := by
  unfold clearBackupTraced
  rw [Traced.always_bind, Traced.always_emits,
    and_iff_left fun _ _ => Traced.always_pure _]
  exact clearing_inside_iff (fun _ => rfl) hlen

/-- A line feed that is the only character has nothing before it. -/
theorem always_lineFeedTraced (hlen : s.length_key ≤ KEYBOARD_BUFFER_SIZE)
    (hempty : s.length_key ≠ 0) :
    Traced.Always BufferAccess.Inside (lineFeedTraced s) ↔ s.length_key ≠ 1 := by
  have hinside : (line (keyIndex s 2)).Inside ↔ s.length_key ≠ 1 := by
    rw [inside_line]
    exact keyIndex_inside hlen hempty
  unfold lineFeedTraced
  dsimp only
  rw [Traced.always_bind, Traced.always_emits]
  constructor
  · rintro ⟨-, hrest⟩ hone
    have hnot : ¬ (s.length_key > 1 ∧ (s.keyboard_buffer (keyIndex s 2)).c = 0x0a) := by omega
    have hloop := hrest () rfl
    rw [if_neg hnot, Traced.always_bind, Traced.always_emit, hinside] at hloop
    exact hloop.1 hone
  · intro hne
    refine ⟨fun a ha => ?_, fun _ _ => ?_⟩
    · rw [if_pos (by omega), List.mem_singleton] at ha
      rw [ha]
      exact hinside.mpr hne
    · split_ifs
      · exact Traced.always_pure _
      · rw [Traced.always_bind, Traced.always_emit, hinside]
        refine ⟨hne, fun _ _ => ?_⟩
        rw [Traced.always_bind]
        exact ⟨Traced.always_ofOption _, fun _ _ => Traced.always_pure _⟩

/-- The loop moves the cursor, and nothing else. -/
theorem lineFeedTraced_length {s₁ : Console} (h : (lineFeedTraced s).result = some s₁) :
    s₁.length_key = s.length_key := by
  unfold lineFeedTraced at h
  dsimp only at h
  rw [Traced.result_bind, Traced.result_emits, Option.bind_some] at h
  split_ifs at h
  · rw [Traced.result_pure, Option.some.injEq] at h
    rw [← h]
  · rw [Traced.result_bind, Traced.result_emit, Option.bind_some, Traced.result_bind,
      Traced.result_ofOption, Option.bind_eq_some_iff] at h
    obtain ⟨loc, -, h⟩ := h
    rw [Traced.result_pure, Option.some.injEq] at h
    rw [← h]

/-- The end of Backspace: both accesses are to the character that goes. -/
theorem always_eraseTraced {s₁ : Console} (hlen : s.length_key ≤ KEYBOARD_BUFFER_SIZE)
    (hempty : s.length_key ≠ 0) (hs₁ : s₁.length_key = s.length_key) :
    Traced.Always BufferAccess.Inside
      (Traced.emit (line (keyIndex s₁ 1)) >>= fun _ => pure (eraseKey s₁)) := by
  have hlast : keyIndex s₁ 1 = s₁.length_key - 1 := keyIndex_last (by omega) (by omega)
  rw [Traced.always_bind, Traced.always_emit, inside_line, hlast]
  exact ⟨by omega, fun _ _ => Traced.always_pure _⟩

theorem always_backspaceTraced (hlen : s.length_key ≤ KEYBOARD_BUFFER_SIZE) :
    Traced.Always BufferAccess.Inside (backspaceTraced t s) ↔
      ¬ (s.current_location ≠ 0 ∧ s.length_key = 1 ∧ (s.keyboard_buffer 0).c = 0x0a) := by
  unfold backspaceTraced
  by_cases hloc : s.current_location = 0
  · rw [if_pos hloc]
    exact iff_of_true (Traced.always_pure _) fun h => h.1 hloc
  rw [if_neg hloc]
  by_cases hempty : s.length_key = 0
  · rw [if_pos hempty]
    refine iff_of_true (Traced.always_pure _) fun h => ?_
    omega
  rw [if_neg hempty]
  have hlast := keyIndex_last hlen hempty
  have hinside : (line (keyIndex s 1)).Inside := by
    rw [inside_line, hlast]
    omega
  have hone : s.length_key = 1 →
      s.keyboard_buffer (keyIndex s 1) = s.keyboard_buffer 0 := by
    intro hone
    rw [hlast, hone]
  dsimp only
  rw [Traced.always_bind, Traced.always_emit, and_iff_right hinside]
  by_cases htab : (s.keyboard_buffer (keyIndex s 1)).c = 0x09
  · rw [if_pos htab]
    refine iff_of_true (fun _ _ => ?_) fun hbad => ?_
    · rw [Traced.always_bind]
      refine ⟨Traced.always_pure _, fun s₁ hs₁ => always_eraseTraced hlen hempty ?_⟩
      rw [Traced.result_pure, Option.some.injEq] at hs₁
      rw [← hs₁]
    · rw [hone hbad.2.1, hbad.2.2] at htab
      exact absurd htab (by decide)
  rw [if_neg htab]
  by_cases hfeed : (s.keyboard_buffer (keyIndex s 1)).c = 0x0a
  · rw [if_pos hfeed]
    have hiff : (s.current_location ≠ 0 ∧ s.length_key = 1 ∧ (s.keyboard_buffer 0).c = 0x0a) ↔
        s.length_key = 1 :=
      ⟨fun h => h.2.1, fun h => ⟨hloc, h, by rw [← hone h, hfeed]⟩⟩
    rw [hiff, ← ne_eq, ← always_lineFeedTraced hlen hempty]
    constructor
    · intro h
      have hboth := h () rfl
      rw [Traced.always_bind] at hboth
      exact hboth.1
    · intro h _ _
      rw [Traced.always_bind]
      exact ⟨h, fun s₁ hs₁ =>
        always_eraseTraced hlen hempty (lineFeedTraced_length hs₁)⟩
  · rw [if_neg hfeed]
    refine iff_of_true (fun _ _ => ?_) fun hbad => ?_
    · rw [Traced.always_bind]
      refine ⟨Traced.always_pure _, fun s₁ hs₁ => always_eraseTraced hlen hempty ?_⟩
      rw [Traced.result_pure, Option.some.injEq] at hs₁
      rw [← hs₁]
      rfl
    · rw [hone hbad.2.1] at hfeed
      exact hfeed hbad.2.2

theorem handle_tab_length (s : Console) : (handle_tab s).length_key = s.length_key := by
  rw [← length_live, (handle_tab_lines s).live, length_live]

theorem handle_enter_length (t : TermId) (s : Console) :
    (handle_enter t s).length_key = s.length_key := by
  rw [← length_live, (handle_enter_lines t s).live, length_live]

/-- Tab and Enter stop at a full buffer. -/
theorem always_appendKey {s₁ : Console} (c : UInt8) (hlen : s.length_key ≤ KEYBOARD_BUFFER_SIZE)
    (hs₁ : s₁.length_key = s.length_key) :
    Traced.Always BufferAccess.Inside
      (if s.length_key = KEYBOARD_BUFFER_SIZE then pure (s, 0)
        else appendTraced t c s₁ >>= fun s => pure (s, 0) : Traced BufferAccess (Console × ℕ)) := by
  split_ifs with hfull
  · exact Traced.always_pure _
  · rw [Traced.always_bind, always_appendTraced, hs₁]
    exact ⟨lt_of_le_of_ne hlen hfull, fun _ _ => Traced.always_pure _⟩

/-- Backspace, Tab and Enter are no characters, and not Ctrl+L. -/
theorem not_unchecked (h : scode = BACKSPACE ∨ scode = TAB ∨ scode = ENTER) :
    ¬ (IsCharacter scode s ∨ scode = LETTER_L ∧ s.ctrl_pressed = true) := by
  rcases h with rfl | rfl | rfl
  · exact not_or.mpr ⟨fun hchar => hchar.1 (by decide), fun hclear => absurd hclear.1 (by decide)⟩
  · exact not_or.mpr ⟨fun hchar => hchar.1 (by decide), fun hclear => absurd hclear.1 (by decide)⟩
  · exact not_or.mpr ⟨fun hchar => hchar.1 (by decide), fun hclear => absurd hclear.1 (by decide)⟩

/-- One key stays inside the live buffer if and only if it fits. -/
theorem always_processTraced (hlen : s.length_key ≤ KEYBOARD_BUFFER_SIZE) :
    Traced.Always BufferAccess.Inside (processTraced t scode s) ↔ KeyFits scode s := by
  unfold processTraced KeyFits
  by_cases hback : scode = BACKSPACE
  · have hother := not_unchecked (s := s) (Or.inl hback)
    rw [if_pos hback, Traced.always_bind, always_backspaceTraced hlen,
      and_iff_left fun _ _ => Traced.always_pure _, and_iff_right fun h => absurd h hother,
      and_iff_right hback]
  rw [if_neg hback, and_iff_left fun h => hback h.1]
  by_cases htab : scode = TAB
  · have hother := not_unchecked (s := s) (Or.inr (Or.inl htab))
    rw [if_pos htab]
    exact iff_of_true (always_appendKey _ hlen (handle_tab_length s)) fun h => absurd h hother
  rw [if_neg htab]
  by_cases henter : scode = ENTER
  · have hother := not_unchecked (s := s) (Or.inr (Or.inr henter))
    rw [if_pos henter]
    exact iff_of_true (always_appendKey _ hlen (handle_enter_length t s)) fun h => absurd h hother
  rw [if_neg henter]
  by_cases hclear : scode = LETTER_L ∧ s.ctrl_pressed = true
  · rw [if_pos hclear, Traced.always_bind, and_iff_left fun _ _ => Traced.always_pure _]
    have hcleared : s.length_key ≠ KEYBOARD_BUFFER_SIZE ↔
        (IsCharacter scode s ∨ scode = LETTER_L ∧ s.ctrl_pressed = true →
          s.length_key ≠ KEYBOARD_BUFFER_SIZE) :=
      ⟨fun h _ => h, fun h => h (Or.inr hclear)⟩
    rw [← hcleared]
    exact always_clearLineTraced (s := { clear t s with
      current_location := 0, ctrl_pressed := false }) hlen
  rw [if_neg hclear]
  by_cases hchar : IsCharacter scode s
  · rw [if_pos hchar]
    have hroom : (IsCharacter scode s ∨ scode = LETTER_L ∧ s.ctrl_pressed = true →
          s.length_key ≠ KEYBOARD_BUFFER_SIZE) ↔ s.length_key ≠ KEYBOARD_BUFFER_SIZE :=
      ⟨fun h => h (Or.inl hchar), fun h _ => h⟩
    rw [hroom]
    have hsize : KEYBOARD_BUFFER_SIZE = 128 := rfl
    split_ifs with hlast
    · refine iff_of_true (Traced.always_pure _) ?_
      omega
    · rw [Traced.always_bind, always_appendTraced, and_iff_left fun _ _ => Traced.always_pure _]
      omega
  · rw [if_neg hchar]
    refine iff_of_true (Traced.always_ofOption _) fun h => ?_
    rcases h with h | h
    · exact absurd h hchar
    · exact absurd h hclear

/-- The lengths, read off the lines. -/
theorem lengthsBounded_iff :
    LengthsBounded s ↔ s.live.length ≤ KEYBOARD_BUFFER_SIZE ∧
      ∀ t, (s.saved t).length ≤ KEYBOARD_BUFFER_SIZE := by
  have hsaved : ∀ t, (s.saved t).length = (s.term t).len_key_buf := fun t => length_cells ..
  simp only [length_live, hsaved]
  exact ⟨fun h => ⟨h.live, h.saved⟩, fun h => ⟨h.1, h.2⟩⟩

/-- A key that fits leaves lengths that fit. -/
theorem process_char_bounded {i : ℕ} (h : LengthsBounded s) (hfits : KeyFits scode s)
    (hkey : process_char t scode s = some (s', i)) : LengthsBounded s' := by
  have heffect : KeyEffect t s s' :=
    process_char_effect h.live (fun hchar => hfits.1 (Or.inl hchar)) hkey
  rw [lengthsBounded_iff] at h ⊢
  refine ⟨heffect.live.length_le h.1, fun u => ?_⟩
  rw [heffect.saved]
  exact h.2 u

end

/-! ## All events -/

/-- The lengths fit, and a reader only loads characters of the line it has looked at. -/
structure BuffersOk (s : InputState) : Prop where
  lengths : LengthsBounded s.console
  loading : ∀ t n i buf, s.reader t = .loading n i buf → i < KEYBOARD_BUFFER_SIZE

section
variable {s s' : InputState} {e : BufferEvent}

theorem BuffersOk.console (h : BuffersOk s) {console : Console} (hc : LengthsBounded console) :
    BuffersOk { s with console := console } := ⟨hc, h.loading⟩

theorem BuffersOk.setReader (h : BuffersOk s) {r : Reader}
    (hr : ∀ n i buf, r = .loading n i buf → i < KEYBOARD_BUFFER_SIZE) :
    BuffersOk (s.setReader r) := by
  refine ⟨h.lengths, fun t n i buf ht => ?_⟩
  have hupdate : Function.update s.reader s.running_term r t = .loading n i buf := ht
  by_cases hrun : t = s.running_term
  · rw [hrun, Function.update_self] at hupdate
    exact hr n i buf hupdate
  · rw [Function.update_of_ne hrun] at hupdate
    exact h.loading t n i buf hupdate

/-- A terminal's saved length changes. -/
theorem LengthsBounded.modTerm {c : Console} (h : LengthsBounded c) (t : TermId)
    {f : TermConsole → TermConsole} (hf : (f (c.term t)).len_key_buf ≤ KEYBOARD_BUFFER_SIZE) :
    LengthsBounded (c.modTerm t f) := by
  refine ⟨h.live, fun u => ?_⟩
  by_cases hu : u = t
  · show (Function.update c.term t _ u).len_key_buf ≤ _
    rw [hu, Function.update_self]
    exact hf
  · show (Function.update c.term t _ u).len_key_buf ≤ _
    rw [Function.update_of_ne hu]
    exact h.saved u

theorem LengthsBounded.clear_buffer {c : Console} (h : LengthsBounded c) :
    LengthsBounded (clear_keyboard_buffer c) := ⟨Nat.zero_le _, h.saved⟩

theorem LengthsBounded.clear_backup {c : Console} (h : LengthsBounded c) (t : TermId) :
    LengthsBounded (clear_keyboard_backup t c) := h.modTerm t (Nat.zero_le _)

theorem LengthsBounded.save_line {c : Console} (h : LengthsBounded c) (t : TermId) :
    LengthsBounded (saveLine t c) := by
  unfold saveLine
  dsimp only
  apply LengthsBounded.modTerm
  · exact ⟨h.live, h.saved⟩
  · exact h.live

theorem BuffersOk.readStep (h : BuffersOk s) (hs : s.readStep = some s') : BuffersOk s' := by
  unfold InputState.readStep at hs
  have hnone : ∀ {r : Reader}, (∀ n i buf, r ≠ .loading n i buf) → BuffersOk (s.setReader r) :=
    fun hr => h.setReader fun n i buf heq => absurd heq (hr n i buf)
  cases hcall : s.reader s.running_term with
  | idle =>
    rw [hcall] at hs
    cases hs
  | waiting n =>
    rw [hcall] at hs
    dsimp only at hs
    split_ifs at hs
    · obtain rfl := Option.some.inj hs
      exact hnone fun _ _ _ => nofun
    · exact Option.some.inj hs ▸ h
  | entered n =>
    rw [hcall, Option.some.injEq] at hs
    rw [← hs]
    have hreader : BuffersOk (s.setReader (.copying n 0 fun _ => none)) :=
      hnone fun _ _ _ => nofun
    exact hreader.console (h.lengths.modTerm _ (h.lengths.saved _))
  | copying n i buf =>
    rw [hcall] at hs
    dsimp only at hs
    split_ifs at hs with hlt hkey
    · -- the index is below the length it was compared with
      rw [Option.some.injEq] at hs
      rw [← hs]
      refine h.setReader fun n' i' buf' heq => ?_
      rw [Reader.loading.injEq] at heq
      rw [← heq.2.1]
      exact lt_of_lt_of_le hkey h.lengths.live
    · obtain rfl := Option.some.inj hs
      exact hnone fun _ _ _ => nofun
    · obtain rfl := Option.some.inj hs
      exact hnone fun _ _ _ => nofun
  | loading n i buf =>
    rw [hcall] at hs
    obtain rfl := Option.some.inj hs
    exact hnone fun _ _ _ => nofun
  | counting n i buf =>
    rw [hcall] at hs
    dsimp only at hs
    split_ifs at hs
    · obtain rfl := Option.some.inj hs
      exact hnone fun _ _ _ => nofun
    · obtain rfl := Option.some.inj hs
      exact hnone fun _ _ _ => nofun
  | adjusting buf =>
    rw [hcall] at hs
    obtain rfl := Option.some.inj hs
    exact hnone fun _ _ _ => nofun
  | clearing i buf =>
    rw [hcall, Option.some.injEq] at hs
    rw [← hs]
    exact ⟨h.lengths.clear_buffer, (hnone (r := .idle) (fun _ _ _ => nofun)).loading⟩

/-- What a reader touches. -/
theorem always_readTraced (h : BuffersOk s) :
    Traced.Always BufferAccess.Inside (readTraced s) ↔ KeepsBuffers s .readStep := by
  show _ ↔ ((s.reader s.running_term).Clearing → s.console.length_key ≠ KEYBOARD_BUFFER_SIZE)
  unfold readTraced
  rw [Traced.always_bind, Traced.always_emits,
    and_iff_left fun _ _ => Traced.always_ofOption _]
  cases hcall : s.reader s.running_term with
  | loading n i buf =>
    refine iff_of_true (fun a ha => ?_) fun hclear => hclear.elim
    rw [List.mem_singleton] at ha
    rw [ha, inside_line]
    exact h.loading _ _ _ _ hcall
  | clearing i buf =>
    dsimp only
    rw [clearing_inside_iff (fun _ => rfl) h.lengths.live]
    exact ⟨fun hne _ => hne, fun himp => himp trivial⟩
  | _ => exact iff_of_true (fun _ ha => absurd ha List.not_mem_nil) fun hclear => hclear.elim

/-- The line of the displayed terminal is measured again before its backup is cleared. -/
theorem BuffersOk.measured (h : BuffersOk s) :
    LengthsBounded (s.console.modTerm s.curr_term fun i => { i with
      cursor_x := UInt32.ofInt s.console.screen_x
      cursor_y := UInt32.ofInt s.console.screen_y
      cursor_location := s.console.current_location
      len_key_buf := s.console.length_key }) := h.lengths.modTerm _ h.lengths.live

/-- The accesses of one event. -/
theorem always_bufferStep (h : BuffersOk s) (e : BufferEvent) :
    Traced.Always BufferAccess.Inside (bufferStep s e) ↔ KeepsBuffers s e := by
  cases e with
  | key scode =>
    rw [bufferStep, Traced.always_bind, always_processTraced h.lengths.live]
    exact and_iff_left fun _ _ => Traced.always_pure _
  | saveCursor =>
    rw [bufferStep, Traced.always_bind, always_clearBackupTraced (h.measured.saved _),
      and_iff_left fun _ _ => Traced.always_pure _]
    have hmeasured : ((s.console.modTerm s.curr_term fun i => { i with
        cursor_x := UInt32.ofInt s.console.screen_x
        cursor_y := UInt32.ofInt s.console.screen_y
        cursor_location := s.console.current_location
        len_key_buf := s.console.length_key }).term s.curr_term).len_key_buf =
          s.console.length_key := by
      show (Function.update s.console.term s.curr_term _ s.curr_term).len_key_buf = _
      rw [Function.update_self]
    rw [hmeasured]
    exact Iff.rfl
  | saveLine =>
    rw [bufferStep, Traced.always_bind, Traced.always_emits]
    exact iff_of_true ⟨copyAccesses_inside _, fun _ _ => Traced.always_pure _⟩ trivial
  | clearLine =>
    rw [bufferStep, Traced.always_bind, always_clearLineTraced h.lengths.live]
    exact and_iff_left fun _ _ => Traced.always_pure _
  | clearBackup t =>
    rw [bufferStep, Traced.always_bind, always_clearBackupTraced (h.lengths.saved t)]
    exact and_iff_left fun _ _ => Traced.always_pure _
  | restore new_term =>
    rw [bufferStep, Traced.always_bind, Traced.always_emits]
    exact iff_of_true ⟨copyAccesses_inside _, fun _ _ => Traced.always_pure _⟩ trivial
  | display t => exact iff_of_true (Traced.always_pure _) trivial
  | tick next => exact iff_of_true (Traced.always_pure _) trivial
  | read nbytes =>
    refine iff_of_true ?_ trivial
    rw [bufferStep]
    split
    · exact Traced.always_pure _
    · exact Traced.always_ofOption _
  | readStep => exact always_readTraced h

/-- One event that keeps within the buffers. -/
theorem BuffersOk.step (h : BuffersOk s) (hok : KeepsBuffers s e)
    (hs : bufferSystem.step s e = some s') : BuffersOk s' := by
  have hstep : (bufferStep s e).result = some s' := hs
  cases e with
  | key scode =>
    rw [bufferStep, Traced.result_bind, result_processTraced, Option.bind_eq_some_iff] at hstep
    obtain ⟨⟨console, i⟩, hkey, hstep⟩ := hstep
    obtain rfl := Option.some.inj hstep
    exact h.console (process_char_bounded h.lengths hok hkey)
  | saveCursor =>
    obtain rfl := Option.some.inj hstep
    exact h.console (h.measured.clear_backup _)
  | saveLine =>
    obtain rfl := Option.some.inj hstep
    exact h.console (h.lengths.save_line s.curr_term)
  | clearLine =>
    obtain rfl := Option.some.inj hstep
    exact h.console h.lengths.clear_buffer
  | clearBackup t =>
    obtain rfl := Option.some.inj hstep
    exact h.console (h.lengths.clear_backup t)
  | restore new_term =>
    obtain rfl := Option.some.inj hstep
    exact h.console ⟨h.lengths.saved new_term, h.lengths.saved⟩
  | display t =>
    obtain rfl := Option.some.inj hstep
    exact ⟨h.lengths, h.loading⟩
  | tick next =>
    obtain rfl := Option.some.inj hstep
    exact ⟨h.lengths, h.loading⟩
  | read nbytes =>
    rw [bufferStep] at hstep
    split at hstep
    · obtain rfl := Option.some.inj hstep
      exact h.setReader fun _ _ _ heq => nomatch heq
    · cases hstep
  | readStep =>
    rw [bufferStep, readTraced, Traced.result_bind, Traced.result_emits, Option.bind_some] at hstep
    exact h.readStep hstep

theorem BuffersOk.stays_iff (h : BuffersOk s) (e : BufferEvent) :
    StaysInBuffers s e ↔ KeepsBuffers s e := by
  constructor
  · intro hstays
    exact (always_bufferStep h e).mp hstays.2
  · intro hok
    exact ⟨fun s' hs => (h.step hok hs).lengths, (always_bufferStep h e).mpr hok⟩

theorem ReachableWhere.buffersOk (h : bufferSystem.ReachableWhere KeepsBuffers s) :
    BuffersOk s := by
  apply h.invariant (P := BuffersOk)
  · rintro s ⟨⟨s₀, hconsole⟩, -, hidle, -, -⟩
    constructor
    · rw [hconsole]
      exact ⟨Nat.zero_le _, fun t => by
        match t with
        | 0 => exact Nat.zero_le _
        | 1 => exact Nat.zero_le _
        | 2 => exact Nat.zero_le _⟩
    · intro t n i buf hload
      rw [hidle t] at hload
      cases hload
  · intro s e s' _ hs hok hstep
    exact hs.step hok hstep

/-- In every run that meets the condition the lengths fit the buffers, and the next event
leaves them so and touches nothing outside if and only if it meets the condition too. -/
theorem buffer_bounds_iff (h : bufferSystem.ReachableWhere KeepsBuffers s) :
    LengthsBounded s.console ∧ ∀ e, StaysInBuffers s e ↔ KeepsBuffers s e := by
  have hs := ReachableWhere.buffersOk h
  exact ⟨hs.lengths, hs.stays_iff⟩

end

/-- A letter, a switch to terminal 1, and Ctrl+L there. -/
theorem buffer_bounds_sample : ∃ s, s.curr_term = 1 ∧ (s.console.term 0).len_key_buf = 1 ∧
    LengthsBounded s.console ∧ ∀ e, StaysInBuffers s e ↔ KeepsBuffers s e := by
  have hrun : ((bufferSystem.restrict KeepsBuffers).runFrom sampleInput
      [.key 0x1E, .saveCursor, .saveLine, .clearLine, .restore 1, .display 1, .key CTRL_DOWN,
        .key LETTER_L]).any
      (fun s => decide (s.curr_term = 1 ∧ (s.console.term 0).len_key_buf = 1)) = true := by
    decide +kernel
  obtain ⟨s, hkeeps, hcurr, hlen⟩ :=
    System.ReachableWhere.exists_of_run (S := bufferSystem) sampleInput_init _ hrun
  exact ⟨s, hcurr, hlen, buffer_bounds_iff hkeeps⟩

/-- Enter fills the buffer, and a letter goes on behind its end. -/
theorem buffer_overflows : ¬ ∀ s, bufferSystem.Reachable s →
    LengthsBounded s.console ∧ ∀ e, StaysInBuffers s e := by
  intro hall
  obtain ⟨s, hreach, hlong⟩ := System.Reachable.exists_of_run
    (S := bufferSystem) (P := fun s => KEYBOARD_BUFFER_SIZE < s.console.length_key)
    sampleInput_init (List.replicate 128 (.key ENTER) ++ [.key 0x1E]) (by decide +kernel)
  exact absurd (hall s hreach).1.live (not_le.mpr hlong)

end Kernel391
