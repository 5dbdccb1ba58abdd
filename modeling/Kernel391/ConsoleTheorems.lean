import Kernel391.Console
import Mathlib.Data.List.Basic
import Mathlib.Data.List.GetD

/-!
# Line buffers under the console routines

A line buffer is read through `cells`, the characters up to its length. Drawing on the
screen changes no line (`SameLines`); a key edits the live line at its end and leaves the
saved ones alone (`process_char_lines`); a terminal switch moves whole lines
(`copyBuffer_cells`), as long as they fit the 128 characters that `memcpy` copies.
-/

namespace Kernel391

/-! ## Lines -/

/-- The characters of a line buffer. -/
def cells (length : ℕ) (buffer : ℕ → KeyCell) : List KeyCell := (List.range length).map buffer

@[simp] theorem length_cells (length : ℕ) (buffer : ℕ → KeyCell) :
    (cells length buffer).length = length := by
  rw [cells, List.length_map, List.length_range]

theorem mem_cells {length : ℕ} {buffer : ℕ → KeyCell} {i : ℕ} (h : i < length) :
    buffer i ∈ cells length buffer :=
  List.mem_map_of_mem (List.mem_range.mpr h)

theorem cells_congr {length : ℕ} {buffer buffer' : ℕ → KeyCell}
    (h : ∀ i < length, buffer' i = buffer i) : cells length buffer' = cells length buffer :=
  List.map_congr_left fun i hi => h i (List.mem_range.mp hi)

theorem cells_append (length : ℕ) (buffer : ℕ → KeyCell) (c : KeyCell) :
    cells (length + 1) (Function.update buffer length c) = cells length buffer ++ [c] := by
  unfold cells
  rw [List.range_succ, List.map_append, List.map_singleton, Function.update_self]
  congr 1
  refine List.map_congr_left fun i hi => ?_
  rw [Function.update_of_ne (Nat.ne_of_lt (List.mem_range.mp hi))]

theorem cells_erase (length : ℕ) (buffer : ℕ → KeyCell) (c : KeyCell) :
    cells (length - 1) (Function.update buffer (length - 1) c) =
      (cells length buffer).dropLast := by
  have hkeep : cells (length - 1) (Function.update buffer (length - 1) c) =
      cells (length - 1) buffer :=
    cells_congr fun i hi => Function.update_of_ne (Nat.ne_of_lt hi) ..
  rw [hkeep]
  unfold cells
  rw [← List.map_dropLast]
  cases length with
  | zero => rfl
  | succ n => rw [Nat.add_sub_cancel, List.range_succ, List.dropLast_concat]

theorem copyBuffer_cells {length : ℕ} (dest src : ℕ → KeyCell)
    (h : length ≤ KEYBOARD_BUFFER_SIZE) :
    cells length (copyBuffer dest src) = cells length src := by
  refine cells_congr fun i hi => ?_
  unfold copyBuffer
  rw [if_pos (Nat.lt_of_lt_of_le hi h)]

/-- The line being typed. -/
def Console.live (s : Console) : List KeyCell := cells s.length_key s.keyboard_buffer

/-- The line saved for a terminal. -/
def Console.saved (s : Console) (t : TermId) : List KeyCell :=
  cells (s.term t).len_key_buf (s.term t).term_key_buf

@[simp] theorem length_live (s : Console) : s.live.length = s.length_key := length_cells ..

/-! ## Drawing -/

/-- No line buffer changes. -/
structure SameLines (s s' : Console) : Prop where
  live : s'.live = s.live
  saved : ∀ t, s'.saved t = s.saved t

theorem SameLines.of_eq {s s' : Console} (hbuf : s'.keyboard_buffer = s.keyboard_buffer)
    (hlen : s'.length_key = s.length_key) (hterm : s'.term = s.term) : SameLines s s' := by
  constructor
  · rw [Console.live, hbuf, hlen, ← Console.live]
  · intro t
    rw [Console.saved, hterm, ← Console.saved]

theorem SameLines.refl (s : Console) : SameLines s s := SameLines.of_eq rfl rfl rfl

theorem SameLines.trans {s s' s'' : Console} (h : SameLines s s') (h' : SameLines s' s'') :
    SameLines s s'' :=
  ⟨h'.live.trans h.live, fun t => (h'.saved t).trans (h.saved t)⟩

theorem putc_lines (t : TermId) (c : UInt8) (s : Console) : SameLines s (putc t c s) := by
  unfold putc
  dsimp only
  split_ifs <;> exact SameLines.of_eq rfl rfl rfl

theorem handle_scroll_lines (s : Console) : SameLines s (handle_scroll s) :=
  SameLines.of_eq rfl rfl rfl

theorem echo_lines (t : TermId) (c : UInt8) (s : Console) : SameLines s (echo t c s) := by
  unfold echo
  dsimp only
  split_ifs
  · exact (putc_lines t c s).trans (handle_scroll_lines _)
  · exact putc_lines t c s
  · exact (handle_scroll_lines s).trans (putc_lines t c _)

theorem tabColumn_lines (s : Console) : SameLines s (tabColumn s) := by
  unfold tabColumn
  dsimp only
  split_ifs <;> exact SameLines.of_eq rfl rfl rfl

theorem handle_tab_lines (s : Console) : SameLines s (handle_tab s) := by
  unfold handle_tab
  split_ifs
  · exact SameLines.refl s
  · exact (((tabColumn_lines s).trans (tabColumn_lines _)).trans (tabColumn_lines _)).trans
      (tabColumn_lines _)

theorem has_enter_lines (t : TermId) (v : Bool) (s : Console) :
    SameLines s (s.modTerm t fun i => { i with has_enter := v }) := by
  refine ⟨rfl, fun u => ?_⟩
  unfold Console.saved Console.modTerm
  by_cases hu : u = t
  · rw [hu]
    dsimp only
    rw [Function.update_self]
  · dsimp only
    rw [Function.update_of_ne hu]

/-- Enter sets `has_enter`; the newline is appended by the caller. -/
theorem handle_enter_lines (t : TermId) (s : Console) : SameLines s (handle_enter t s) := by
  unfold handle_enter
  dsimp only
  split_ifs
  · exact SameLines.refl s
  · exact (handle_scroll_lines s).trans (has_enter_lines t true _)
  · have hmove : SameLines s { s with
        current_location := (s.current_location.tdiv (NUM_COLS * 2) + 1) * NUM_COLS * 2 } :=
      SameLines.of_eq rfl rfl rfl
    exact hmove.trans (has_enter_lines t true _)

/-! ## Keys -/

/-- What a key may do to a line that holds at most `capacity` characters. -/
inductive LineEdit {α : Type} (capacity : ℕ) (new : α → Prop) : List α → List α → Prop
  | same (l : List α) : LineEdit capacity new l l
  | append {l : List α} {c : α} : l.length < capacity → new c → LineEdit capacity new l (l ++ [c])
  | erase (l : List α) : LineEdit capacity new l l.dropLast
  | clear (l : List α) : LineEdit capacity new l []

/-- The line still fits. -/
theorem LineEdit.length_le {α : Type} {capacity : ℕ} {new : α → Prop} {l l' : List α}
    (h : LineEdit capacity new l l') (hl : l.length ≤ capacity) : l'.length ≤ capacity := by
  cases h with
  | same => exact hl
  | append hlt _ =>
    rw [List.length_append, List.length_singleton]
    exact hlt
  | erase =>
    rw [List.length_dropLast]
    omega
  | clear => exact Nat.zero_le _

/-- Every character in it is an old one or a new one. -/
theorem LineEdit.forall_mem {α : Type} {capacity : ℕ} {new : α → Prop} {l l' : List α}
    (h : LineEdit capacity new l l') {P : α → Prop} (hl : ∀ c ∈ l, P c)
    (hnew : ∀ c, new c → P c) : ∀ c ∈ l', P c := by
  cases h with
  | same => exact hl
  | append _ hc =>
    intro x hx
    rcases List.mem_append.mp hx with hx | hx
    · exact hl x hx
    · rw [List.mem_singleton] at hx
      exact hx ▸ hnew _ hc
  | erase => exact fun c hc => hl c (List.dropLast_subset _ hc)
  | clear =>
    intro c hc
    cases hc

/-- A character typed while terminal `t` is on display. -/
def TypedOn (t : TermId) (c : KeyCell) : Prop := c.typed = some t

/-- The keys whose code `process_char` looks up in its table. -/
def IsCharacter (scode : ℕ) (s : Console) : Prop :=
  scode ∉ [BACKSPACE, TAB, CAP, LSHIFT_DOWN, RSHIFT_DOWN, ALT_DOWN, F1, F2, F3, CTRL_DOWN, ENTER] ∧
    ¬ (scode = LETTER_L ∧ s.ctrl_pressed = true) ∧ ¬ (scode = LETTER_C ∧ s.ctrl_pressed = true)

instance (scode : ℕ) (s : Console) : Decidable (IsCharacter scode s) := by
  unfold IsCharacter
  infer_instance

/-- The keys that change the line being typed. -/
def EditsLine (scode : ℕ) (s : Console) : Prop :=
  scode = BACKSPACE ∨ scode = TAB ∨ scode = ENTER ∨
    (scode = LETTER_L ∧ s.ctrl_pressed = true) ∨ IsCharacter scode s

instance (scode : ℕ) (s : Console) : Decidable (EditsLine scode s) := by
  unfold EditsLine
  infer_instance

/-- The live line is edited and the saved ones stay. -/
structure KeyEffect (t : TermId) (s s' : Console) : Prop where
  live : LineEdit KEYBOARD_BUFFER_SIZE (TypedOn t) s.live s'.live
  saved : ∀ u, s'.saved u = s.saved u

theorem SameLines.keyEffect {t : TermId} {s s' : Console} (h : SameLines s s') :
    KeyEffect t s s' := by
  refine ⟨?_, h.saved⟩
  rw [h.live]
  exact LineEdit.same _

/-- A key appended after some drawing. -/
theorem append_key_live {t : TermId} {c : UInt8} {s s' : Console} (h : SameLines s s') :
    (append_key t c s').live = s.live ++ [{ c := c, typed := some t }] := by
  rw [← h.live]
  exact cells_append _ _ _

theorem append_key_effect (t : TermId) (c : UInt8) {s s' : Console} (h : SameLines s s')
    (hlt : s.length_key < KEYBOARD_BUFFER_SIZE) : KeyEffect t s (append_key t c s') := by
  refine ⟨?_, h.saved⟩
  rw [append_key_live h]
  refine LineEdit.append ?_ rfl
  rw [length_live]
  exact hlt

/-- The last step of `handle_backspace`. -/
def eraseKey (s : Console) : Console :=
  { s with
    keyboard_buffer := Function.update s.keyboard_buffer (keyIndex s 1) NULL_KEY
    length_key := s.length_key - 1 }

/-- The last character. -/
theorem keyIndex_last {s : Console} (hlen : s.length_key ≤ KEYBOARD_BUFFER_SIZE)
    (hempty : s.length_key ≠ 0) : keyIndex s 1 = s.length_key - 1 := by
  unfold keyIndex addressSpace
  simp only [KEYBOARD_BUFFER_SIZE] at hlen
  omega

/-- The character before it. -/
theorem keyIndex_before {s : Console} (hlen : s.length_key ≤ KEYBOARD_BUFFER_SIZE)
    (htwo : 2 ≤ s.length_key) : keyIndex s 2 = s.length_key - 2 := by
  unfold keyIndex addressSpace
  simp only [KEYBOARD_BUFFER_SIZE] at hlen
  omega

/-- Where there is none, the unsigned index wraps. -/
theorem keyIndex_inside {s : Console} (hlen : s.length_key ≤ KEYBOARD_BUFFER_SIZE)
    (hempty : s.length_key ≠ 0) :
    keyIndex s 2 < KEYBOARD_BUFFER_SIZE ↔ s.length_key ≠ 1 := by
  unfold keyIndex addressSpace
  simp only [KEYBOARD_BUFFER_SIZE] at hlen ⊢
  omega

theorem eraseKey_live {s : Console} (hlen : s.length_key ≤ KEYBOARD_BUFFER_SIZE)
    (hempty : s.length_key ≠ 0) : (eraseKey s).live = s.live.dropLast := by
  unfold Console.live eraseKey
  rw [keyIndex_last hlen hempty]
  exact cells_erase _ _ _

/-- Backspace erases the last character, if there is one and the cursor is not at the top
left. Wherever the cursor goes, the same character is erased. -/
theorem handle_backspace_cases {t : TermId} {s s' : Console} (h : handle_backspace t s = some s') :
    ((s.current_location = 0 ∨ s.length_key = 0) ∧ s' = s) ∨
    (¬ (s.current_location = 0 ∨ s.length_key = 0) ∧
      ∃ s₁ : Console, s₁.keyboard_buffer = s.keyboard_buffer ∧ s₁.length_key = s.length_key ∧
        s₁.term = s.term ∧ s' = eraseKey s₁) := by
  unfold handle_backspace at h
  by_cases hloc : s.current_location = 0
  · rw [if_pos hloc, Option.some.injEq] at h
    exact Or.inl ⟨Or.inl hloc, h.symm⟩
  by_cases hempty : s.length_key = 0
  · rw [if_neg hloc, if_pos hempty, Option.some.injEq] at h
    exact Or.inl ⟨Or.inr hempty, h.symm⟩
  refine Or.inr ⟨not_or.mpr ⟨hloc, hempty⟩, ?_⟩
  have herase : ∀ s₁ : Console, s₁.keyboard_buffer = s.keyboard_buffer →
      s₁.length_key = s.length_key → s₁.term = s.term →
      ∃ s₂ : Console, s₂.keyboard_buffer = s.keyboard_buffer ∧ s₂.length_key = s.length_key ∧
        s₂.term = s.term ∧ { s₁ with
          keyboard_buffer := Function.update s₁.keyboard_buffer (keyIndex s₁ 1) NULL_KEY
          length_key := s₁.length_key - 1 } = eraseKey s₂ :=
    fun s₁ hbuf hkey hterm => ⟨s₁, hbuf, hkey, hterm, rfl⟩
  rw [if_neg hloc, if_neg hempty] at h
  dsimp only at h
  split_ifs at h
  · rw [Option.bind_eq_bind, Option.bind_some, Option.some.injEq] at h
    exact h ▸ herase _ rfl rfl rfl
  · rw [Option.bind_eq_bind, Option.bind_some, Option.some.injEq] at h
    exact h ▸ herase _ rfl rfl rfl
  · rw [Option.bind_eq_bind, Option.bind_eq_some_iff] at h
    obtain ⟨loc, -, h⟩ := h
    rw [Option.bind_eq_bind, Option.bind_some, Option.some.injEq] at h
    exact h ▸ herase _ rfl rfl rfl
  · rw [Option.bind_eq_bind, Option.bind_some, Option.some.injEq] at h
    exact h ▸ herase _ rfl rfl rfl

theorem handle_backspace_live {t : TermId} {s s' : Console}
    (hlen : s.length_key ≤ KEYBOARD_BUFFER_SIZE) (h : handle_backspace t s = some s') :
    s'.live = if s.current_location = 0 ∨ s.length_key = 0 then s.live else s.live.dropLast := by
  rcases handle_backspace_cases h with ⟨hnone, rfl⟩ | ⟨hsome, s₁, hbuf, hkey, -, rfl⟩
  · rw [if_pos hnone]
  · have hlive : s₁.live = s.live := by
      rw [Console.live, hbuf, hkey, ← Console.live]
    have hempty : s.length_key ≠ 0 := (not_or.mp hsome).2
    rw [if_neg hsome, eraseKey_live (hkey ▸ hlen) (hkey ▸ hempty), hlive]

theorem handle_backspace_term {t : TermId} {s s' : Console} (h : handle_backspace t s = some s') :
    s'.term = s.term := by
  rcases handle_backspace_cases h with ⟨-, rfl⟩ | ⟨-, s₁, -, -, hterm, rfl⟩
  · rfl
  · exact hterm

theorem handle_backspace_effect {t : TermId} {s s' : Console}
    (hlen : s.length_key ≤ KEYBOARD_BUFFER_SIZE) (h : handle_backspace t s = some s') :
    KeyEffect t s s' := by
  constructor
  · rw [handle_backspace_live hlen h]
    split_ifs
    · exact LineEdit.same _
    · exact LineEdit.erase _
  · intro u
    rw [Console.saved, handle_backspace_term h, ← Console.saved]

/-- The character keys, which stop one short of a full line but go on behind it. -/
theorem process_key_effect (t : TermId) (scode : ℕ) {s : Console}
    (hlen : s.length_key ≤ KEYBOARD_BUFFER_SIZE) (hroom : s.length_key ≠ KEYBOARD_BUFFER_SIZE) :
    KeyEffect t s (process_key t scode s) := by
  unfold process_key
  dsimp only
  split_ifs
  · exact (SameLines.refl s).keyEffect
  · have happend := append_key_effect t (scancode_map s.key_mode scode) (SameLines.refl s)
      (Nat.lt_of_le_of_ne hlen hroom)
    have hecho := echo_lines t (scancode_map s.key_mode scode)
      (append_key t (scancode_map s.key_mode scode) s)
    refine ⟨?_, fun u => (hecho.saved u).trans (happend.saved u)⟩
    rw [hecho.live]
    exact happend.live

/-- The modifier keys and their state. -/
def setModes (key_mode : ℕ) (cap_on ctrl_pressed alt_pressed : Bool) (s : Console) : Console :=
  { s with
    key_mode := key_mode, cap_on := cap_on, ctrl_pressed := ctrl_pressed
    alt_pressed := alt_pressed }

/-- A key that leaves the line alone: no editing key, or one the full buffer refuses. -/
def Refused (scode : ℕ) (s : Console) : Prop :=
  ¬ EditsLine scode s ∨ (scode = TAB ∨ scode = ENTER) ∧ s.length_key = KEYBOARD_BUFFER_SIZE

def modifierKeys : List ℕ := [CAP, LSHIFT_DOWN, RSHIFT_DOWN, ALT_DOWN, F1, F2, F3, CTRL_DOWN]

/-- The modifier and function keys are no characters. -/
theorem refused_of_modifier {scode : ℕ} {s : Console} (hmem : scode ∈ modifierKeys) :
    Refused scode s := by
  refine Or.inl ?_
  unfold EditsLine IsCharacter
  simp only [modifierKeys, List.mem_cons, List.not_mem_nil, or_false] at hmem
  rcases hmem with rfl | rfl | rfl | rfl | rfl | rfl | rfl | rfl <;>
    simp [BACKSPACE, TAB, ENTER, LETTER_L, LETTER_C, CAP, LSHIFT_DOWN, RSHIFT_DOWN, ALT_DOWN,
      F1, F2, F3, CTRL_DOWN]

/-- They set the modes, and no more. -/
theorem process_char_modifier {t : TermId} {scode i : ℕ} {s s' : Console}
    (hmem : scode ∈ modifierKeys) (h : process_char t scode s = some (s', i)) :
    ∃ mode cap ctrl alt, s' = setModes mode cap ctrl alt s := by
  have hmodes : ∀ {mode cap ctrl alt j}, some (setModes mode cap ctrl alt s, j) = some (s', i) →
      ∃ mode cap ctrl alt, s' = setModes mode cap ctrl alt s := fun heq =>
    ⟨_, _, _, _, (Prod.mk.inj (Option.some.inj heq)).1.symm⟩
  unfold process_char at h
  simp only [modifierKeys, List.mem_cons, List.not_mem_nil, or_false] at hmem
  rcases hmem with rfl | hmem
  · -- Caps Lock
    rw [if_neg (by decide), if_neg (by decide), if_pos rfl] at h
    split_ifs at h <;> exact hmodes h
  rw [← or_assoc] at hmem
  rcases hmem with hshift | hmem
  · rw [if_neg (by rcases hshift with rfl | rfl <;> decide),
      if_neg (by rcases hshift with rfl | rfl <;> decide),
      if_neg (by rcases hshift with rfl | rfl <;> decide), if_pos hshift] at h
    split_ifs at h <;> exact hmodes h
  rcases hmem with rfl | rfl | rfl | rfl | rfl
  · -- Alt
    rw [if_neg (by decide), if_neg (by decide), if_neg (by decide), if_neg (by decide),
      if_pos rfl] at h
    exact hmodes h
  · -- F1, F2 and F3
    rw [if_neg (by decide), if_neg (by decide), if_neg (by decide), if_neg (by decide),
      if_neg (by decide), if_pos rfl] at h
    exact hmodes h
  · rw [if_neg (by decide), if_neg (by decide), if_neg (by decide), if_neg (by decide),
      if_neg (by decide), if_neg (by decide), if_pos rfl] at h
    exact hmodes h
  · rw [if_neg (by decide), if_neg (by decide), if_neg (by decide), if_neg (by decide),
      if_neg (by decide), if_neg (by decide), if_neg (by decide), if_pos rfl] at h
    exact hmodes h
  · -- Ctrl
    rw [if_neg (by decide), if_neg (by decide), if_neg (by decide), if_neg (by decide),
      if_neg (by decide), if_neg (by decide), if_neg (by decide), if_neg (by decide),
      if_pos rfl] at h
    exact hmodes h

/-- Every way `process_char` ends. -/
theorem process_char_ends {t : TermId} {scode i : ℕ} {s s' : Console}
    (h : process_char t scode s = some (s', i)) :
    (scode = BACKSPACE ∧ handle_backspace t s = some s') ∨
    (scode = TAB ∧ s.length_key ≠ KEYBOARD_BUFFER_SIZE ∧
      s' = append_key t 0x09 (handle_tab s)) ∨
    (scode = ENTER ∧ s.length_key ≠ KEYBOARD_BUFFER_SIZE ∧
      s' = append_key t 0x0a (handle_enter t s)) ∨
    ((scode = LETTER_L ∧ s.ctrl_pressed = true) ∧ s' = clear_keyboard_buffer
      { clear t s with current_location := 0, ctrl_pressed := false }) ∨
    (IsCharacter scode s ∧ s' = process_key t scode s) ∨
    (Refused scode s ∧ ∃ mode cap ctrl alt, s' = setModes mode cap ctrl alt s) := by
  by_cases hmem : scode ∈ modifierKeys
  · refine Or.inr (Or.inr (Or.inr (Or.inr (Or.inr ⟨refused_of_modifier hmem, ?_⟩))))
    exact process_char_modifier hmem h
  have hlast : ∀ mode cap ctrl alt, Refused scode s → s' = setModes mode cap ctrl alt s →
      (Refused scode s ∧ ∃ mode cap ctrl alt, s' = setModes mode cap ctrl alt s) :=
    fun mode cap ctrl alt hr heq => ⟨hr, mode, cap, ctrl, alt, heq⟩
  have hother := hmem
  simp only [modifierKeys, List.mem_cons, List.not_mem_nil, or_false, not_or] at hother
  obtain ⟨hcap, hleft, hright, halt, hf1, hf2, hf3, hctrl⟩ := hother
  unfold process_char at h
  -- the other cases in the order of the source
  by_cases hback : scode = BACKSPACE
  · rw [if_pos hback, Option.map_eq_some_iff] at h
    obtain ⟨s₁, hs₁, heq⟩ := h
    rw [Prod.mk.injEq] at heq
    exact Or.inl ⟨hback, heq.1 ▸ hs₁⟩
  refine Or.inr ?_
  rw [if_neg hback] at h
  by_cases htab : scode = TAB
  · rw [if_pos htab] at h
    split_ifs at h with hfull
    · rw [Option.some.injEq, Prod.mk.injEq] at h
      exact Or.inr (Or.inr (Or.inr (Or.inr
        (hlast _ _ _ _ (Or.inr ⟨Or.inl htab, hfull⟩) h.1.symm))))
    · rw [Option.some.injEq, Prod.mk.injEq] at h
      exact Or.inl ⟨htab, hfull, h.1.symm⟩
  refine Or.inr ?_
  rw [if_neg htab, if_neg hcap, if_neg (not_or.mpr ⟨hleft, hright⟩), if_neg halt, if_neg hf1,
    if_neg hf2, if_neg hf3, if_neg hctrl] at h
  by_cases henter : scode = ENTER
  · rw [if_pos henter] at h
    split_ifs at h with hfull
    · rw [Option.some.injEq, Prod.mk.injEq] at h
      exact Or.inr (Or.inr (Or.inr
        (hlast _ _ _ _ (Or.inr ⟨Or.inr henter, hfull⟩) h.1.symm)))
    · rw [Option.some.injEq, Prod.mk.injEq] at h
      exact Or.inl ⟨henter, hfull, h.1.symm⟩
  refine Or.inr ?_
  rw [if_neg henter] at h
  by_cases hl : scode = LETTER_L ∧ s.ctrl_pressed
  · rw [if_pos hl, Option.some.injEq, Prod.mk.injEq] at h
    exact Or.inl ⟨hl, h.1.symm⟩
  refine Or.inr ?_
  rw [if_neg hl] at h
  by_cases hc : scode = LETTER_C ∧ s.ctrl_pressed
  · rw [if_pos hc, Option.some.injEq, Prod.mk.injEq] at h
    have hr : Refused scode s := by
      refine Or.inl ?_
      unfold EditsLine IsCharacter
      simp [hc, BACKSPACE, TAB, ENTER, LETTER_L, LETTER_C]
    exact Or.inr (hlast _ _ _ _ hr h.1.symm)
  rw [if_neg hc, Option.some.injEq, Prod.mk.injEq] at h
  -- the default case: none of the keys above
  have hchar : IsCharacter scode s := by
    refine ⟨?_, hl, hc⟩
    simp [hback, htab, hcap, hleft, hright, halt, hf1, hf2, hf3, hctrl, henter]
  exact Or.inl ⟨hchar, h.1.symm⟩

/-- What holds of the table's entries, and of zero, holds of every code it is asked for. -/
theorem scancode_map_forall {P : UInt8 → Prop} (hrows : ∀ row ∈ scancodeRows, ∀ c ∈ row, P c)
    (hzero : P 0) (mode scode : ℕ) : P (scancode_map mode scode) := by
  unfold scancode_map
  by_cases hmode : mode < scancodeRows.length
  · rw [List.getD_eq_getElem _ _ hmode]
    by_cases hcode : scode < scancodeRows[mode].length
    · rw [List.getD_eq_getElem _ _ hcode]
      exact hrows _ (List.getElem_mem hmode) _ (List.getElem_mem hcode)
    · rw [List.getD_eq_default _ _ (Nat.le_of_not_lt hcode)]
      exact hzero
  · rw [List.getD_eq_default _ _ (Nat.le_of_not_lt hmode)]
    exact hzero

/-! ## Each key by name -/

section
variable (t : TermId) (s : Console)

theorem process_char_backspace :
    process_char t BACKSPACE s = (handle_backspace t s).map fun s => (s, 0) := rfl

theorem process_char_tab :
    process_char t TAB s = if s.length_key = KEYBOARD_BUFFER_SIZE then some (s, 0)
      else some (append_key t 0x09 (handle_tab s), 0) := rfl

theorem process_char_enter :
    process_char t ENTER s = if s.length_key = KEYBOARD_BUFFER_SIZE then some (s, 0)
      else some (append_key t 0x0a (handle_enter t s), 0) := rfl

/-- Ctrl+L. -/
theorem process_char_clear (h : s.ctrl_pressed = true) :
    process_char t LETTER_L s = some (clear_keyboard_buffer { clear t s with
      current_location := 0, ctrl_pressed := false }, 0) := by
  have hkey : process_char t LETTER_L s =
      if LETTER_L = LETTER_L ∧ s.ctrl_pressed = true then
        some (clear_keyboard_buffer { clear t s with
          current_location := 0, ctrl_pressed := false }, 0)
      else if LETTER_L = LETTER_C ∧ s.ctrl_pressed = true then
        some ({ s with ctrl_pressed := false }, 4)
      else some (process_key t LETTER_L s, 0) := rfl
  rw [hkey, if_pos ⟨rfl, h⟩]

end

/-- The default case. -/
theorem process_char_character {t : TermId} {scode : ℕ} {s : Console}
    (h : IsCharacter scode s) : process_char t scode s = some (process_key t scode s, 0) := by
  obtain ⟨hkeys, hl, hc⟩ := h
  simp only [List.mem_cons, List.not_mem_nil, or_false, not_or] at hkeys
  obtain ⟨hback, htab, hcap, hleft, hright, halt, hf1, hf2, hf3, hctrl, henter⟩ := hkeys
  unfold process_char
  rw [if_neg hback, if_neg htab, if_neg hcap, if_neg (not_or.mpr ⟨hleft, hright⟩), if_neg halt,
    if_neg hf1, if_neg hf2, if_neg hf3, if_neg hctrl, if_neg henter, if_neg hl, if_neg hc]

/-- Every way `process_char` ends, as far as the lines are concerned. -/
theorem process_char_cases {t : TermId} {scode i : ℕ} {s s' : Console}
    (h : process_char t scode s = some (s', i)) :
    (scode = BACKSPACE ∧ handle_backspace t s = some s') ∨
    ((scode = TAB ∨ scode = ENTER) ∧ s.length_key ≠ KEYBOARD_BUFFER_SIZE ∧
      ∃ c s₁, SameLines s s₁ ∧ s' = append_key t c s₁) ∨
    ((scode = LETTER_L ∧ s.ctrl_pressed = true) ∧ KeyEffect t s s') ∨
    (IsCharacter scode s ∧ s' = process_key t scode s) ∨ SameLines s s' := by
  rcases process_char_ends h with hback | ⟨htab, hroom, rfl⟩ | ⟨henter, hroom, rfl⟩ | ⟨hl, rfl⟩ |
    hchar | ⟨-, mode, cap, ctrl, alt, rfl⟩
  · exact Or.inl hback
  · exact Or.inr (Or.inl ⟨Or.inl htab, hroom, _, _, handle_tab_lines s, rfl⟩)
  · exact Or.inr (Or.inl ⟨Or.inr henter, hroom, _, _, handle_enter_lines t s, rfl⟩)
  · exact Or.inr (Or.inr (Or.inl ⟨hl, LineEdit.clear _, fun u => rfl⟩))
  · exact Or.inr (Or.inr (Or.inr (Or.inl hchar)))
  · exact Or.inr (Or.inr (Or.inr (Or.inr (SameLines.of_eq rfl rfl rfl))))

/-- A key edits the line of the displayed terminal and no other. -/
theorem process_char_effect {t : TermId} {scode i : ℕ} {s s' : Console}
    (hlen : s.length_key ≤ KEYBOARD_BUFFER_SIZE)
    (hroom : IsCharacter scode s → s.length_key ≠ KEYBOARD_BUFFER_SIZE)
    (h : process_char t scode s = some (s', i)) : KeyEffect t s s' := by
  rcases process_char_cases h with ⟨-, hback⟩ | ⟨-, hfull, c, s₁, hsame, rfl⟩ |
    ⟨-, hclear⟩ | ⟨hchar, rfl⟩ | hsame
  · exact handle_backspace_effect hlen hback
  · exact append_key_effect t c hsame (Nat.lt_of_le_of_ne hlen hfull)
  · exact hclear
  · exact process_key_effect t scode hlen (hroom hchar)
  · exact hsame.keyEffect

/-- The other keys leave every line alone. -/
theorem process_char_same {t : TermId} {scode i : ℕ} {s s' : Console}
    (hkey : ¬ EditsLine scode s) (h : process_char t scode s = some (s', i)) :
    SameLines s s' := by
  unfold EditsLine at hkey
  rcases process_char_cases h with ⟨hback, -⟩ | ⟨htab, -⟩ | ⟨hl, -⟩ | ⟨hchar, -⟩ | hsame
  · exact absurd (Or.inl hback) hkey
  · rcases htab with htab | henter
    · exact absurd (Or.inr (Or.inl htab)) hkey
    · exact absurd (Or.inr (Or.inr (Or.inl henter))) hkey
  · exact absurd (Or.inr (Or.inr (Or.inr (Or.inl hl)))) hkey
  · exact absurd (Or.inr (Or.inr (Or.inr (Or.inr hchar)))) hkey
  · exact hsame

/-- The keyboard interrupt either processes a pressed key or leaves every line alone. -/
theorem keyboard_interrupt_handler_cases {t : TermId} {c : ℕ} {s s' : Console}
    {action : KeyAction} (h : keyboard_interrupt_handler t c s = some (s', action)) :
    (c ≠ 0 ∧ c < KEY_COUNT ∧ ∃ i, process_char t c s = some (s', i)) ∨ SameLines s s' := by
  unfold keyboard_interrupt_handler at h
  by_cases h0 : c = 0
  · rw [if_pos h0, Option.some.injEq, Prod.mk.injEq] at h
    exact Or.inr (h.1 ▸ SameLines.refl s)
  rw [if_neg h0] at h
  by_cases hup : c ≥ KEY_COUNT
  · rw [if_pos hup] at h
    split_ifs at h <;>
    · rw [Option.some.injEq, Prod.mk.injEq] at h
      exact Or.inr (h.1 ▸ SameLines.of_eq rfl rfl rfl)
  · rw [if_neg hup, Option.bind_eq_bind, Option.bind_eq_some_iff] at h
    obtain ⟨⟨s₁, i⟩, hkey, h⟩ := h
    rw [Option.some.injEq, Prod.mk.injEq] at h
    exact Or.inl ⟨h0, Nat.lt_of_not_le hup, i, h.1 ▸ hkey⟩

end Kernel391
