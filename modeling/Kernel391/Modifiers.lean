import Kernel391.ConsoleTheorems
import Kernel391.Lib.TransitionSystem
import Mathlib.Algebra.Ring.Parity

/-!
# The modifier keys

The keyboard driver knows the modifiers by four variables, and everything else it does leaves
them alone: a machine of its own inside the console (`Modes`), which `process_char` and the
interrupt handler follow (`keyboard_interrupt_modes`). It is compared here with the keys that
are held (`HeldKeys`). It loses track of shift when one of two shift keys is released, and a zero
byte makes the handler test a result that was never set (`modifiers_tracked_iff`).
-/

namespace Kernel391

open TransitionSystem

/-! ## The handler -/

/-- What the handler calls at its end. -/
inductive Called where
  | nothing
  | halt
  | launch_term (n : ℤ)
deriving DecidableEq

/-- Its last test, of the result `i`. -/
def called (i : ℤ) : Called :=
  if i = 4 then .halt else if i ≠ 0 then .launch_term (i - 1) else .nothing

def KeyAction.called : KeyAction → Called
  | .done => .nothing
  | .halt => .halt
  | .launch t => .launch_term t.val

/-- The handler, with the value `i` that its result variable has before it is set. -/
def keyboard_interrupt (curr_term : TermId) (i : ℤ) (c : ℕ) (s : Console) :
    Option (Console × Called) :=
  if c = 0 then some (s, called i)
  else (keyboard_interrupt_handler curr_term c s).map fun r => (r.1, r.2.called)

/-- With a zero there it is the handler as it was. -/
theorem keyboard_interrupt_zero (curr_term : TermId) (c : ℕ) (s : Console) :
    keyboard_interrupt curr_term 0 c s =
      (keyboard_interrupt_handler curr_term c s).map fun r => (r.1, r.2.called) := by
  unfold keyboard_interrupt
  by_cases hc : c = 0
  · rw [if_pos hc]
    unfold keyboard_interrupt_handler
    rw [if_pos hc]
    rfl
  · rw [if_neg hc]

/-! ## Modes -/

/-- The variables of the modifiers. -/
structure Modes where
  key_mode : ℕ
  cap_on : Bool
  ctrl_pressed : Bool
  alt_pressed : Bool
deriving DecidableEq

def Console.modes (s : Console) : Modes where
  key_mode := s.key_mode
  cap_on := s.cap_on
  ctrl_pressed := s.ctrl_pressed
  alt_pressed := s.alt_pressed

namespace Modes

/-- Nothing pressed. -/
def initial : Modes where
  key_mode := 0
  cap_on := false
  ctrl_pressed := false
  alt_pressed := false

/-- A pressed key, and the value `process_char` returns. -/
def press (scode : ℕ) (m : Modes) : Modes × ℕ :=
  if scode = CAP then
    if m.cap_on then ({ m with cap_on := false, key_mode := if m.key_mode = 2 then 0 else 1 }, 0)
    else ({ m with cap_on := true, key_mode := if m.key_mode = 0 then 2 else 3 }, 0)
  else if scode = LSHIFT_DOWN ∨ scode = RSHIFT_DOWN then
    if m.key_mode = 3 ∨ m.key_mode = 1 then (m, 0)
    else ({ m with key_mode := if m.key_mode = 2 then 3 else 1 }, 0)
  else if scode = ALT_DOWN then ({ m with alt_pressed := true }, 0)
  else if scode = F1 then (m, if m.alt_pressed then 1 else 0)
  else if scode = F2 then (m, if m.alt_pressed then 2 else 0)
  else if scode = F3 then (m, if m.alt_pressed then 3 else 0)
  else if scode = CTRL_DOWN then ({ m with ctrl_pressed := true }, 0)
  else if scode = LETTER_L ∧ m.ctrl_pressed then ({ m with ctrl_pressed := false }, 0)
  else if scode = LETTER_C ∧ m.ctrl_pressed then ({ m with ctrl_pressed := false }, 4)
  else (m, 0)

/-- A released key. -/
def release (c : ℕ) (m : Modes) : Modes :=
  if c = LSHIFT_UP ∨ c = RSHIFT_UP then
    if m.key_mode = 2 ∨ m.key_mode = 0 then m
    else { m with key_mode := if m.key_mode = 3 then 2 else 0 }
  else if c = CTRL_UP then { m with ctrl_pressed := false }
  else if c = ALT_UP then { m with alt_pressed := false }
  else m

/-- The handler, as far as the modifiers are concerned. -/
def interrupt (i : ℤ) (c : ℕ) (m : Modes) : Modes × Called :=
  if c = 0 then (m, called i)
  else if c ≥ KEY_COUNT then (m.release c, .nothing)
  else ((m.press c).1, called (m.press c).2)

end Modes

/-! ## The console routines leave the modes alone -/

section
variable (t : TermId) (c : UInt8) (s : Console)

@[simp] theorem putc_modes : (putc t c s).modes = s.modes := by
  unfold putc
  dsimp only
  split_ifs <;> rfl

@[simp] theorem append_key_modes : (append_key t c s).modes = s.modes := rfl

@[simp] theorem handle_scroll_modes : (handle_scroll s).modes = s.modes := rfl

@[simp] theorem echo_modes : (echo t c s).modes = s.modes := by
  unfold echo
  dsimp only
  split_ifs
  · rw [handle_scroll_modes, putc_modes]
  · rw [putc_modes]
  · rw [putc_modes, handle_scroll_modes]

@[simp] theorem process_key_modes (scode : ℕ) : (process_key t scode s).modes = s.modes := by
  unfold process_key
  dsimp only
  split_ifs
  · rfl
  · rw [echo_modes, append_key_modes]

@[simp] theorem tabColumn_modes : (tabColumn s).modes = s.modes := by
  unfold tabColumn
  dsimp only
  split_ifs <;> rfl

@[simp] theorem handle_tab_modes : (handle_tab s).modes = s.modes := by
  unfold handle_tab
  split_ifs
  · rfl
  · rw [tabColumn_modes, tabColumn_modes, tabColumn_modes, tabColumn_modes]

@[simp] theorem handle_enter_modes : (handle_enter t s).modes = s.modes := by
  unfold handle_enter
  dsimp only
  split_ifs <;> rfl

end

theorem handle_backspace_modes {t : TermId} {s s' : Console}
    (h : handle_backspace t s = some s') : s'.modes = s.modes := by
  unfold handle_backspace at h
  dsimp only at h
  split_ifs at h
  · rw [← Option.some.inj h]
  · rw [← Option.some.inj h]
  · rw [Option.bind_eq_bind, Option.bind_some] at h
    rw [← Option.some.inj h]
    rfl
  · rw [Option.bind_eq_bind, Option.bind_some] at h
    rw [← Option.some.inj h]
    rfl
  · rw [Option.bind_eq_bind, Option.bind_eq_some_iff] at h
    obtain ⟨loc, -, h⟩ := h
    rw [Option.bind_eq_bind, Option.bind_some] at h
    rw [← Option.some.inj h]
    rfl
  · rw [Option.bind_eq_bind, Option.bind_some] at h
    rw [← Option.some.inj h]
    rfl

/-- `process_char` does to the modes what `press` says, and returns what it says. -/
theorem process_char_modes {t : TermId} {scode i : ℕ} {s s' : Console}
    (h : process_char t scode s = some (s', i)) : s.modes.press scode = (s'.modes, i) := by
  have hend : ∀ {s₁ : Console} {j : ℕ}, some (s₁, j) = some (s', i) →
      (s₁.modes, j) = (s'.modes, i) := by
    intro s₁ j heq
    rw [(Prod.mk.inj (Option.some.inj heq)).1, (Prod.mk.inj (Option.some.inj heq)).2]
  by_cases hback : scode = BACKSPACE
  · rw [hback, process_char_backspace, Option.map_eq_some_iff] at h
    obtain ⟨s₁, hs₁, heq⟩ := h
    rw [hback, ← hend (congrArg some heq), handle_backspace_modes hs₁]
    rfl
  by_cases htab : scode = TAB
  · rw [htab, process_char_tab] at h
    have hmodes : (s.modes, 0) = (s'.modes, i) := by
      split_ifs at h
      · exact hend h
      · rw [← hend h, append_key_modes, handle_tab_modes]
    rw [← hmodes, htab]
    rfl
  by_cases henter : scode = ENTER
  · rw [henter, process_char_enter] at h
    have hmodes : (s.modes, 0) = (s'.modes, i) := by
      split_ifs at h
      · exact hend h
      · rw [← hend h, append_key_modes, handle_enter_modes]
    rw [← hmodes, henter]
    rfl
  -- the other keys, in the order of the source
  unfold process_char at h
  unfold Modes.press
  rw [if_neg hback, if_neg htab] at h
  by_cases hcap : scode = CAP
  · rw [if_pos hcap] at h ⊢
    by_cases hon : s.cap_on
    · rw [if_pos hon] at h
      rw [if_pos (show s.modes.cap_on = true from hon), ← hend h]
      rfl
    · rw [if_neg hon] at h
      rw [if_neg (show ¬ s.modes.cap_on = true from hon), ← hend h]
      rfl
  rw [if_neg hcap] at h ⊢
  by_cases hshift : scode = LSHIFT_DOWN ∨ scode = RSHIFT_DOWN
  · rw [if_pos hshift] at h ⊢
    by_cases hon : s.key_mode = 3 ∨ s.key_mode = 1
    · rw [if_pos hon] at h
      rw [if_pos (show s.modes.key_mode = 3 ∨ s.modes.key_mode = 1 from hon), ← hend h]
    · rw [if_neg hon] at h
      rw [if_neg (show ¬ (s.modes.key_mode = 3 ∨ s.modes.key_mode = 1) from hon), ← hend h]
      rfl
  rw [if_neg hshift] at h ⊢
  by_cases halt : scode = ALT_DOWN
  · rw [if_pos halt] at h ⊢
    exact hend h
  rw [if_neg halt] at h ⊢
  by_cases hf1 : scode = F1
  · rw [if_pos hf1] at h ⊢
    exact hend h
  rw [if_neg hf1] at h ⊢
  by_cases hf2 : scode = F2
  · rw [if_pos hf2] at h ⊢
    exact hend h
  rw [if_neg hf2] at h ⊢
  by_cases hf3 : scode = F3
  · rw [if_pos hf3] at h ⊢
    exact hend h
  rw [if_neg hf3] at h ⊢
  by_cases hctrl : scode = CTRL_DOWN
  · rw [if_pos hctrl] at h ⊢
    exact hend h
  rw [if_neg hctrl] at h ⊢
  rw [if_neg henter] at h
  by_cases hl : scode = LETTER_L ∧ s.ctrl_pressed
  · rw [if_pos hl] at h
    rw [if_pos (show scode = LETTER_L ∧ s.modes.ctrl_pressed = true from hl), ← hend h]
    rfl
  rw [if_neg hl] at h
  rw [if_neg (show ¬ (scode = LETTER_L ∧ s.modes.ctrl_pressed = true) from hl)]
  by_cases hc : scode = LETTER_C ∧ s.ctrl_pressed
  · rw [if_pos hc] at h
    rw [if_pos (show scode = LETTER_C ∧ s.modes.ctrl_pressed = true from hc), ← hend h]
    rfl
  rw [if_neg hc] at h
  rw [if_neg (show ¬ (scode = LETTER_C ∧ s.modes.ctrl_pressed = true) from hc), ← hend h,
    process_key_modes]

/-- The value returned is one of those the handler looks for. -/
theorem Modes.press_le (scode : ℕ) (m : Modes) : (m.press scode).2 ≤ 4 := by
  unfold Modes.press
  repeat' refine iteInduction (motive := fun r : Modes × ℕ => r.2 ≤ 4) (fun _ => ?_) fun _ => ?_
  all_goals dsimp only
  all_goals grind

theorem called_action {i : ℕ} (hi : i ≤ 4) :
    KeyAction.called (if i = 4 then .halt else if i = 1 then .launch 0 else if i = 2 then .launch 1
      else if i = 3 then .launch 2 else .done) = called i := by
  have hcases : i = 0 ∨ i = 1 ∨ i = 2 ∨ i = 3 ∨ i = 4 := by omega
  rcases hcases with rfl | rfl | rfl | rfl | rfl <;> decide

/-- The handler does to the modes, and calls, what `interrupt` says. -/
theorem keyboard_interrupt_modes {t : TermId} {i : ℤ} {c : ℕ} {s s' : Console} {a : Called}
    (h : keyboard_interrupt t i c s = some (s', a)) : s.modes.interrupt i c = (s'.modes, a) := by
  unfold keyboard_interrupt at h
  unfold Modes.interrupt
  by_cases hzero : c = 0
  · rw [if_pos hzero, Option.some.injEq, Prod.mk.injEq] at h
    rw [if_pos hzero, h.1, h.2]
  rw [if_neg hzero, Option.map_eq_some_iff] at h
  obtain ⟨⟨s₁, action⟩, hhandler, heq⟩ := h
  rw [Prod.mk.injEq] at heq
  obtain ⟨rfl, rfl⟩ := heq
  unfold keyboard_interrupt_handler at hhandler
  rw [if_neg hzero] at hhandler ⊢
  by_cases hup : c ≥ KEY_COUNT
  · have hend : ∀ {s₂ : Console}, some (s₂, KeyAction.done) = some (s₁, action) →
        (s₂.modes, Called.nothing) = (s₁.modes, action.called) := by
      intro s₂ heq
      rw [← (Prod.mk.inj (Option.some.inj heq)).1, ← (Prod.mk.inj (Option.some.inj heq)).2]
      rfl
    rw [if_pos hup] at hhandler ⊢
    unfold Modes.release
    by_cases hshift : c = LSHIFT_UP ∨ c = RSHIFT_UP
    · rw [if_pos hshift] at hhandler ⊢
      by_cases hoff : s.key_mode = 2 ∨ s.key_mode = 0
      · rw [if_pos hoff] at hhandler
        rw [if_pos (show s.modes.key_mode = 2 ∨ s.modes.key_mode = 0 from hoff), hend hhandler]
      · rw [if_neg hoff] at hhandler
        rw [if_neg (show ¬ (s.modes.key_mode = 2 ∨ s.modes.key_mode = 0) from hoff),
          ← hend hhandler]
        rfl
    rw [if_neg hshift] at hhandler ⊢
    by_cases hctrl : c = CTRL_UP
    · rw [if_pos hctrl] at hhandler ⊢
      exact hend hhandler
    rw [if_neg hctrl] at hhandler ⊢
    by_cases halt : c = ALT_UP
    · rw [if_pos halt] at hhandler ⊢
      exact hend hhandler
    rw [if_neg halt] at hhandler ⊢
    exact hend hhandler
  · rw [if_neg hup, Option.bind_eq_bind, Option.bind_eq_some_iff] at hhandler
    obtain ⟨⟨s₂, j⟩, hkey, hhandler⟩ := hhandler
    rw [Option.some.injEq, Prod.mk.injEq] at hhandler
    have hpress := process_char_modes hkey
    have hle : j ≤ 4 := by
      have hbound := s.modes.press_le c
      rwa [hpress] at hbound
    rw [if_neg hup, hpress, ← hhandler.1, ← hhandler.2]
    exact Prod.ext rfl (called_action hle).symm

/-! ## Keys held -/

/-- The modifier keys that are down, and how often Caps Lock has been pressed. -/
structure HeldKeys where
  left : Bool
  right : Bool
  alt : Bool
  ctrl : Bool
  caps : ℕ

namespace HeldKeys

def none : HeldKeys where
  left := false
  right := false
  alt := false
  ctrl := false
  caps := 0

/-- A key goes down or up. -/
def note (c : ℕ) (h : HeldKeys) : HeldKeys where
  left := if c = LSHIFT_DOWN then true else if c = LSHIFT_UP then false else h.left
  right := if c = RSHIFT_DOWN then true else if c = RSHIFT_UP then false else h.right
  alt := if c = ALT_DOWN then true else if c = ALT_UP then false else h.alt
  ctrl := if c = CTRL_DOWN then true else if c = CTRL_UP then false else h.ctrl
  caps := if c = CAP then h.caps + 1 else h.caps

/-- One of the two shift keys. -/
def shift (h : HeldKeys) : Bool := h.left || h.right

/-- Caps Lock is on. -/
def odd (h : HeldKeys) : Bool := h.caps % 2 = 1

/-- The row of `scancode_map`. -/
def row (h : HeldKeys) : ℕ := (if h.shift then 1 else 0) + (if h.odd then 2 else 0)

end HeldKeys

/-- The mode shows what is held. -/
structure Tracks (h : HeldKeys) (m : Modes) : Prop where
  shift : m.key_mode = 1 ∨ m.key_mode = 3 ↔ h.left = true ∨ h.right = true
  caps : m.key_mode = 2 ∨ m.key_mode = 3 ↔ Odd h.caps

/-- What a byte has to do while the keys `h` are held. -/
structure Answers (t : TermId) (h : HeldKeys) (c : ℕ) (s s' : Console) (a : Called) : Prop where
  tracks : Tracks (h.note c) s'.modes
  row : c ≠ 0 → c < KEY_COUNT → IsCharacter c s → s.length_key ≠ KEYBOARD_BUFFER_SIZE - 1 →
    s'.live = s.live ++ [{ c := scancode_map h.row c, typed := some t }]
  launch : ∀ n, a = .launch_term n →
    h.alt = true ∧ (c = F1 ∧ n = 0 ∨ c = F2 ∧ n = 1 ∨ c = F3 ∧ n = 2)
  halt : a = .halt → h.ctrl = true ∧ c = LETTER_C

/-- No shift key is released while the other is held, and a zero byte finds a zero. -/
structure KeyOk (h : HeldKeys) (c : ℕ) (i : ℤ) : Prop where
  left : c = LSHIFT_UP → h.right = false
  right : c = RSHIFT_UP → h.left = false
  zero : c = 0 → i = 0

instance (h : HeldKeys) (c : ℕ) (i : ℤ) : Decidable (KeyOk h c i) :=
  decidable_of_iff ((c = LSHIFT_UP → h.right = false) ∧ (c = RSHIFT_UP → h.left = false) ∧
    (c = 0 → i = 0)) ⟨fun h => ⟨h.1, h.2.1, h.2.2⟩, fun h => ⟨h.left, h.right, h.zero⟩⟩

/-! ## One byte -/

/-- What the variables say of the keys. -/
structure Mirrors (h : HeldKeys) (m : Modes) : Prop where
  mode : m.key_mode = h.row
  cap_on : m.cap_on = h.odd
  alt : m.alt_pressed = true → h.alt = true
  ctrl : m.ctrl_pressed = true → h.ctrl = true

section
variable {h : HeldKeys} {m : Modes} {c : ℕ} {i : ℤ}

theorem HeldKeys.shift_iff : h.shift = true ↔ h.left = true ∨ h.right = true := by
  rw [HeldKeys.shift, Bool.or_eq_true]

theorem HeldKeys.odd_iff : h.odd = true ↔ Odd h.caps := by
  rw [HeldKeys.odd, decide_eq_true_eq, Nat.odd_iff]

theorem tracks_iff (hm : m.key_mode ≤ 3) : Tracks h m ↔ m.key_mode = h.row := by
  have hsplit : Tracks h m ↔ (m.key_mode = 1 ∨ m.key_mode = 3 ↔ h.shift = true) ∧
      (m.key_mode = 2 ∨ m.key_mode = 3 ↔ h.odd = true) := by
    rw [HeldKeys.shift_iff, HeldKeys.odd_iff]
    exact ⟨fun htracks => ⟨htracks.shift, htracks.caps⟩, fun hboth => ⟨hboth.1, hboth.2⟩⟩
  have hmode : m.key_mode = 0 ∨ m.key_mode = 1 ∨ m.key_mode = 2 ∨ m.key_mode = 3 := by omega
  rw [hsplit, HeldKeys.row]
  rcases hmode with hmode | hmode | hmode | hmode <;> rw [hmode] <;>
    cases h.shift <;> cases h.odd <;> decide

theorem HeldKeys.row_le (h : HeldKeys) : h.row ≤ 3 := by
  unfold HeldKeys.row
  split_ifs <;> omega

/-- Nothing, a release or a press. -/
theorem interrupt_cases (i : ℤ) (c : ℕ) (m : Modes) :
    (c = 0 ∧ m.interrupt i c = (m, called i)) ∨
    (c ≥ KEY_COUNT ∧ m.interrupt i c = (m.release c, .nothing)) ∨
    (c ≠ 0 ∧ ¬ c ≥ KEY_COUNT) ∧ m.interrupt i c = ((m.press c).1, called (m.press c).2) := by
  unfold Modes.interrupt
  by_cases hzero : c = 0
  · exact Or.inl ⟨hzero, if_pos hzero⟩
  rw [if_neg hzero]
  by_cases hup : c ≥ KEY_COUNT
  · exact Or.inr (Or.inl ⟨hup, if_pos hup⟩)
  · exact Or.inr (Or.inr ⟨⟨hzero, hup⟩, if_neg hup⟩)

/-- Where the mode goes with a key. -/
theorem interrupt_mode (i : ℤ) (c : ℕ) (m : Modes) : (m.interrupt i c).1.key_mode =
    if c = CAP then
      if m.cap_on then (if m.key_mode = 2 then 0 else 1) else (if m.key_mode = 0 then 2 else 3)
    else if c = LSHIFT_DOWN ∨ c = RSHIFT_DOWN then
      if m.key_mode = 3 ∨ m.key_mode = 1 then m.key_mode
      else if m.key_mode = 2 then 3 else 1
    else if c = LSHIFT_UP ∨ c = RSHIFT_UP then
      if m.key_mode = 2 ∨ m.key_mode = 0 then m.key_mode
      else if m.key_mode = 3 then 2 else 0
    else m.key_mode := by
  have hdown : c ≥ KEY_COUNT → ¬ c = CAP ∧ ¬ (c = LSHIFT_DOWN ∨ c = RSHIFT_DOWN) := by
    intro hc
    unfold KEY_COUNT at hc
    unfold CAP LSHIFT_DOWN RSHIFT_DOWN
    omega
  have hup : ¬ c ≥ KEY_COUNT → ¬ (c = LSHIFT_UP ∨ c = RSHIFT_UP) := by
    intro hc
    unfold KEY_COUNT at hc
    unfold LSHIFT_UP RSHIFT_UP
    omega
  rcases interrupt_cases i c m with ⟨hzero, heq⟩ | ⟨hc, heq⟩ | ⟨⟨-, hc⟩, heq⟩
  · rw [heq, hzero]
    rfl
  · rw [heq, if_neg (hdown hc).1, if_neg (hdown hc).2]
    unfold Modes.release
    split_ifs <;> rfl
  · rw [heq, if_neg (hup hc)]
    unfold Modes.press
    by_cases hcap : c = CAP
    · rw [if_pos hcap, if_pos hcap]
      split <;> rfl
    rw [if_neg hcap, if_neg hcap]
    by_cases hshift : c = LSHIFT_DOWN ∨ c = RSHIFT_DOWN
    · rw [if_pos hshift, if_pos hshift]
      split <;> rfl
    rw [if_neg hshift, if_neg hshift]
    repeat'
      refine iteInduction (motive := fun r : Modes × ℕ => r.1.key_mode = m.key_mode)
        (fun _ => ?_) fun _ => ?_
    all_goals rfl

/-- Caps Lock changes the one half of the row. -/
theorem HeldKeys.odd_note : (h.note c).odd = if c = CAP then !h.odd else h.odd := by
  unfold HeldKeys.odd HeldKeys.note
  dsimp only
  split_ifs
  · rw [← decide_not, decide_eq_decide]
    omega
  · rfl

/-- The shift keys change the other. -/
theorem HeldKeys.shift_note : (h.note c).shift =
    ((if c = LSHIFT_DOWN then true else if c = LSHIFT_UP then false else h.left) ||
      (if c = RSHIFT_DOWN then true else if c = RSHIFT_UP then false else h.right)) := rfl

/-- The mode follows, unless one shift key has been released while the other is held. -/
theorem Mirrors.mode_iff (hf : Mirrors h m) :
    (m.interrupt i c).1.key_mode = (h.note c).row ↔
      (c = LSHIFT_UP → h.right = false) ∧ (c = RSHIFT_UP → h.left = false) := by
  rw [interrupt_mode, hf.mode, hf.cap_on, HeldKeys.row, HeldKeys.row, HeldKeys.odd_note,
    HeldKeys.shift_note, HeldKeys.shift]
  by_cases h₁ : c = CAP
  · rw [h₁]
    cases h.left <;> cases h.right <;> cases h.odd <;> decide
  by_cases h₂ : c = LSHIFT_DOWN
  · rw [h₂]
    cases h.left <;> cases h.right <;> cases h.odd <;> decide
  by_cases h₃ : c = RSHIFT_DOWN
  · rw [h₃]
    cases h.left <;> cases h.right <;> cases h.odd <;> decide
  by_cases h₄ : c = LSHIFT_UP
  · rw [h₄]
    cases h.left <;> cases h.right <;> cases h.odd <;> decide
  by_cases h₅ : c = RSHIFT_UP
  · rw [h₅]
    cases h.left <;> cases h.right <;> cases h.odd <;> decide
  -- the other keys touch neither
  rw [if_neg h₁, if_neg (not_or.mpr ⟨h₂, h₃⟩), if_neg (not_or.mpr ⟨h₄, h₅⟩), if_neg h₂, if_neg h₃,
    if_neg h₄, if_neg h₅, if_neg h₁]
  exact iff_of_true rfl ⟨fun hc => absurd hc h₄, fun hc => absurd hc h₅⟩

theorem press_cap_on : (m.press c).1.cap_on = if c = CAP then !m.cap_on else m.cap_on := by
  unfold Modes.press
  grind

theorem release_cap_on : (m.release c).cap_on = m.cap_on := by
  unfold Modes.release
  grind

theorem press_alt (hon : (m.press c).1.alt_pressed = true) :
    c = ALT_DOWN ∨ m.alt_pressed = true := by
  unfold Modes.press at hon
  grind

theorem release_alt (hon : (m.release c).alt_pressed = true) :
    c ≠ ALT_UP ∧ m.alt_pressed = true := by
  unfold Modes.release at hon
  grind [ALT_UP, LSHIFT_UP, RSHIFT_UP, CTRL_UP]

theorem press_ctrl (hon : (m.press c).1.ctrl_pressed = true) :
    c = CTRL_DOWN ∨ m.ctrl_pressed = true := by
  unfold Modes.press at hon
  grind

theorem release_ctrl (hon : (m.release c).ctrl_pressed = true) :
    c ≠ CTRL_UP ∧ m.ctrl_pressed = true := by
  unfold Modes.release at hon
  grind [LSHIFT_UP, RSHIFT_UP, CTRL_UP]

/-- What a key that asks for a call finds. -/
theorem press_result (hcall : (m.press c).2 ≠ 0) :
    m.alt_pressed = true ∧ (c = F1 ∧ (m.press c).2 = 1 ∨ c = F2 ∧ (m.press c).2 = 2 ∨
      c = F3 ∧ (m.press c).2 = 3) ∨
    m.ctrl_pressed = true ∧ c = LETTER_C ∧ (m.press c).2 = 4 := by
  revert hcall
  unfold Modes.press
  repeat'
    refine iteInduction (motive := fun r : Modes × ℕ => r.2 ≠ 0 →
      m.alt_pressed = true ∧ (c = F1 ∧ r.2 = 1 ∨ c = F2 ∧ r.2 = 2 ∨ c = F3 ∧ r.2 = 3) ∨
        m.ctrl_pressed = true ∧ c = LETTER_C ∧ r.2 = 4) (fun _ => ?_) fun _ => ?_
  all_goals dsimp only
  all_goals grind

theorem interrupt_cap_on (i : ℤ) (c : ℕ) (m : Modes) :
    (m.interrupt i c).1.cap_on = if c = CAP then !m.cap_on else m.cap_on := by
  rcases interrupt_cases i c m with ⟨hzero, heq⟩ | ⟨hup, heq⟩ | ⟨-, heq⟩
  · rw [heq, hzero]
    rfl
  · have hcap : c ≠ CAP := by
      unfold KEY_COUNT at hup
      unfold CAP
      omega
    rw [heq, if_neg hcap]
    exact release_cap_on
  · rw [heq]
    exact press_cap_on

/-- What is taken to be pressed is held. -/
theorem Mirrors.held (hf : Mirrors h m) :
    ((m.interrupt i c).1.alt_pressed = true → (h.note c).alt = true) ∧
      ((m.interrupt i c).1.ctrl_pressed = true → (h.note c).ctrl = true) := by
  have halt := hf.alt
  have hctrl := hf.ctrl
  unfold HeldKeys.note
  dsimp only
  rcases interrupt_cases i c m with ⟨hzero, heq⟩ | ⟨hup, heq⟩ | ⟨⟨-, hdown⟩, heq⟩
  · rw [heq, hzero]
    exact ⟨halt, hctrl⟩
  · rw [heq]
    refine ⟨fun hon => ?_, fun hon => ?_⟩
    · rw [if_neg (release_alt hon).1, halt (release_alt hon).2, ite_self]
    · rw [if_neg (release_ctrl hon).1, hctrl (release_ctrl hon).2, ite_self]
  · -- a pressed key is none of the releases
    have hreleases : c ≠ ALT_UP ∧ c ≠ CTRL_UP := by
      unfold KEY_COUNT at hdown
      unfold ALT_UP CTRL_UP
      omega
    rw [heq, if_neg hreleases.1, if_neg hreleases.2]
    refine ⟨fun hon => ?_, fun hon => ?_⟩
    · rcases press_alt hon with hc | hon
      · rw [if_pos hc]
      · rw [halt hon, ite_self]
    · rcases press_ctrl hon with hc | hon
      · rw [if_pos hc]
      · rw [hctrl hon, ite_self]

/-- The variables still follow. -/
theorem Mirrors.interrupt (hf : Mirrors h m) (hok : KeyOk h c i) :
    Mirrors (h.note c) (m.interrupt i c).1 := by
  refine ⟨hf.mode_iff.mpr ⟨hok.left, hok.right⟩, ?_, hf.held.1, hf.held.2⟩
  rw [HeldKeys.odd_note, ← hf.cap_on]
  exact interrupt_cap_on i c m

/-- A key asks for the calls it should. -/
theorem Mirrors.press_calls (hf : Mirrors h m) :
    (∀ n, called (m.press c).2 = .launch_term n →
        h.alt = true ∧ (c = F1 ∧ n = 0 ∨ c = F2 ∧ n = 1 ∨ c = F3 ∧ n = 2)) ∧
      (called (m.press c).2 = .halt → h.ctrl = true ∧ c = LETTER_C) := by
  constructor
  · intro n hn
    have hcall : (m.press c).2 ≠ 0 := by
      intro hzero
      rw [hzero] at hn
      cases hn
    rcases press_result hcall with ⟨halt, ⟨hc, h1⟩ | ⟨hc, h2⟩ | ⟨hc, h3⟩⟩ | ⟨-, -, h4⟩
    · rw [h1] at hn
      exact ⟨hf.alt halt, Or.inl ⟨hc, (Called.launch_term.inj hn).symm⟩⟩
    · rw [h2] at hn
      exact ⟨hf.alt halt, Or.inr (Or.inl ⟨hc, (Called.launch_term.inj hn).symm⟩)⟩
    · rw [h3] at hn
      exact ⟨hf.alt halt, Or.inr (Or.inr ⟨hc, (Called.launch_term.inj hn).symm⟩)⟩
    · rw [h4] at hn
      cases hn
  · intro hn
    have hcall : (m.press c).2 ≠ 0 := by
      intro hzero
      rw [hzero] at hn
      cases hn
    rcases press_result hcall with ⟨-, ⟨-, h1⟩ | ⟨-, h2⟩ | ⟨-, h3⟩⟩ | ⟨hctrl, hc, -⟩
    · rw [h1] at hn
      cases hn
    · rw [h2] at hn
      cases hn
    · rw [h3] at hn
      cases hn
    · exact ⟨hf.ctrl hctrl, hc⟩

/-- The calls are those asked for, unless a zero byte finds something else than zero. -/
theorem Mirrors.calls_iff (hf : Mirrors h m) :
    ((∀ n, (m.interrupt i c).2 = .launch_term n →
        h.alt = true ∧ (c = F1 ∧ n = 0 ∨ c = F2 ∧ n = 1 ∨ c = F3 ∧ n = 2)) ∧
      ((m.interrupt i c).2 = .halt → h.ctrl = true ∧ c = LETTER_C)) ↔ (c = 0 → i = 0) := by
  rcases interrupt_cases i c m with ⟨hzero, heq⟩ | ⟨hup, heq⟩ | ⟨⟨hne, -⟩, heq⟩
  · rw [heq]
    dsimp only
    constructor
    · rintro ⟨hlaunch, hhalt⟩ -
      by_contra hi
      by_cases h4 : i = 4
      · have hc := (hhalt (by unfold called; rw [if_pos h4])).2
        rw [hzero] at hc
        cases hc
      · obtain ⟨-, hc⟩ := hlaunch (i - 1) (by unfold called; rw [if_neg h4, if_pos hi])
        rw [hzero] at hc
        rcases hc with ⟨hc, -⟩ | ⟨hc, -⟩ | ⟨hc, -⟩ <;> cases hc
    · intro hi
      rw [hi hzero]
      exact ⟨fun n hn => (by cases hn), fun hn => (by cases hn)⟩
  · rw [heq]
    refine iff_of_true ⟨fun n hn => (by cases hn), fun hn => (by cases hn)⟩ fun hzero => ?_
    unfold KEY_COUNT at hup
    omega
  · rw [heq]
    exact iff_of_true hf.press_calls fun hzero => absurd hzero hne

/-- A character key appends the entry of the mode's row. -/
theorem keyboard_interrupt_character {t : TermId} {s s' : Console} {a : Called}
    (hkey : keyboard_interrupt t i c s = some (s', a)) (hne : c ≠ 0) (hdown : c < KEY_COUNT)
    (hchar : IsCharacter c s) (hroom : s.length_key ≠ KEYBOARD_BUFFER_SIZE - 1) :
    s'.live = s.live ++ [{ c := scancode_map s.key_mode c, typed := some t }] := by
  unfold keyboard_interrupt at hkey
  rw [if_neg hne, Option.map_eq_some_iff] at hkey
  obtain ⟨⟨s₁, action⟩, hhandler, heq⟩ := hkey
  rw [Prod.mk.injEq] at heq
  unfold keyboard_interrupt_handler at hhandler
  rw [if_neg hne, if_neg (Nat.not_le.mpr hdown), Option.bind_eq_bind, Option.bind_eq_some_iff]
    at hhandler
  obtain ⟨⟨s₂, j⟩, hpress, hhandler⟩ := hhandler
  rw [Option.some.injEq, Prod.mk.injEq] at hhandler
  have hs' : s₂ = s' := hhandler.1.trans heq.1
  have hprocess : s₂ = process_key t c s := by
    rw [process_char_character hchar, Option.some.injEq, Prod.mk.injEq] at hpress
    exact hpress.1.symm
  rw [← hs', hprocess]
  unfold process_key
  dsimp only
  rw [if_neg hroom, (echo_lines t _ _).live]
  exact cells_append _ _ _

/-- One byte is answered as it should be if and only if it meets the condition. -/
theorem Mirrors.answers_iff {t : TermId} {s s' : Console} {a : Called} (hf : Mirrors h s.modes)
    (hkey : keyboard_interrupt t i c s = some (s', a)) :
    Answers t h c s s' a ↔ KeyOk h c i := by
  have hmodes := keyboard_interrupt_modes hkey
  have hle : (s.modes.interrupt i c).1.key_mode ≤ 3 := by
    have hmode : s.modes.key_mode ≤ 3 := hf.mode ▸ h.row_le
    rw [interrupt_mode]
    split_ifs <;> omega
  have htracks := (tracks_iff (h := h.note c) hle).trans (hf.mode_iff (i := i))
  have hcalls := hf.calls_iff (c := c) (i := i)
  rw [hmodes] at htracks hcalls
  constructor
  · intro hright
    obtain ⟨hleft, hother⟩ := htracks.mp hright.tracks
    exact ⟨hleft, hother, hcalls.mp ⟨hright.launch, hright.halt⟩⟩
  · intro hok
    obtain ⟨hlaunch, hhalt⟩ := hcalls.mpr hok.zero
    refine ⟨htracks.mpr ⟨hok.left, hok.right⟩, fun hne hdown hchar hroom => ?_, hlaunch, hhalt⟩
    rw [keyboard_interrupt_character hkey hne hdown hchar hroom,
      show s.key_mode = h.row from hf.mode]

end

/-! ## Runs -/

/-- The displayed terminal and the console. -/
structure Keyboard where
  curr_term : TermId
  console : Console

/-- The keyboard delivers a byte, or the rest of the kernel does something. -/
inductive KeyboardEvent where
  | byte (c : UInt8) (i : ℤ)
  | rest (t : TermId) (s : Console)

def keyboardStep (k : Keyboard) : KeyboardEvent → Option Keyboard
  | .byte c i => (keyboard_interrupt k.curr_term i c.toNat k.console).map fun r =>
    { k with console := r.1 }
  -- the variables are private to the driver
  | .rest t s =>
    if s.modes = k.console.modes then some { curr_term := t, console := s } else none

def noteKey (_ : Keyboard) : KeyboardEvent → HeldKeys → HeldKeys
  | .byte c _, h => h.note c.toNat
  | .rest _ _, h => h

/-- The driver, and the keys held. -/
def keyboardSystem : System (Keyboard × HeldKeys) KeyboardEvent :=
  System.withHistory { init := fun k => k.console.modes = Modes.initial, step := keyboardStep }
    (fun _ h => h = HeldKeys.none) noteKey

def KeyboardOk (p : Keyboard × HeldKeys) : KeyboardEvent → Prop
  | .byte c i => KeyOk p.2 c.toNat i
  | .rest _ _ => True

instance (p : Keyboard × HeldKeys) (e : KeyboardEvent) : Decidable (KeyboardOk p e) := by
  cases e <;> unfold KeyboardOk <;> infer_instance

theorem mirrors_of_run {p : Keyboard × HeldKeys}
    (hrun : keyboardSystem.ReachableWhere KeyboardOk p) :
    Mirrors p.2 p.1.console.modes := by
  refine System.ReachableWhere.invariant (P := fun p => Mirrors p.2 p.1.console.modes) hrun
    (fun p h0 => ?_) fun p e p' _ hp hok hs => ?_
  · obtain ⟨hmodes, hnone⟩ := h0
    rw [show p.1.console.modes = Modes.initial from hmodes, hnone]
    exact ⟨rfl, rfl, fun hon => hon, fun hon => hon⟩
  · obtain ⟨hstep, hnote⟩ := System.withHistory_step_iff.mp hs
    rw [hnote]
    cases e with
    | byte c i =>
      obtain ⟨⟨s', a⟩, hkey, hk'⟩ := Option.map_eq_some_iff.mp hstep
      have hmodes := keyboard_interrupt_modes hkey
      have hfollows := hp.interrupt hok
      rw [hmodes] at hfollows
      rw [← hk']
      exact hfollows
    | rest t s =>
      have hrest : (if s.modes = p.1.console.modes then some { curr_term := t, console := s }
          else none) = some p'.1 := hstep
      split_ifs at hrest with hsame
      rw [← Option.some.inj hrest]
      exact hsame ▸ hp

/-- As long as no shift key is released while the other is held, and zero bytes find a zero, the
mode shows the keys held; and the next byte is answered as it should be if and only if it keeps
to this. -/
theorem modifiers_tracked_iff {p : Keyboard × HeldKeys}
    (hrun : keyboardSystem.ReachableWhere KeyboardOk p) : Tracks p.2 p.1.console.modes ∧
      ∀ (c : UInt8) (i : ℤ) (s' : Console) (a : Called),
        keyboard_interrupt p.1.curr_term i c.toNat p.1.console = some (s', a) →
        (Answers p.1.curr_term p.2 c.toNat p.1.console s' a ↔ KeyOk p.2 c.toNat i) := by
  have hf := mirrors_of_run hrun
  refine ⟨?_, fun c i s' a hkey => hf.answers_iff hkey⟩
  exact (tracks_iff (hf.mode ▸ p.2.row_le)).mpr hf.mode

/-- A keyboard nobody has touched. -/
def sampleKeyboard : Keyboard := { curr_term := 0, console := Console.blank }

theorem sampleKeyboard_init : keyboardSystem.init (sampleKeyboard, HeldKeys.none) := ⟨rfl, rfl⟩

/-- Shift and Caps Lock, and then F2 with Alt. -/
theorem modifiers_tracked_sample : ∃ p, keyboardSystem.ReachableWhere KeyboardOk p ∧
    (p.1.console.key_mode = 3 ∧ p.2.alt = true) ∧ Tracks p.2 p.1.console.modes ∧
      ∀ (c : UInt8) (i : ℤ) (s' : Console) (a : Called),
        keyboard_interrupt p.1.curr_term i c.toNat p.1.console = some (s', a) →
        (Answers p.1.curr_term p.2 c.toNat p.1.console s' a ↔ KeyOk p.2 c.toNat i) := by
  obtain ⟨p, hrun, hp⟩ : ∃ p, keyboardSystem.ReachableWhere KeyboardOk p ∧
      (p.1.console.key_mode = 3 ∧ p.2.alt = true) :=
    System.ReachableWhere.exists_of_run sampleKeyboard_init
      [.byte 0x2A 0, .byte 0x3A 0, .byte 0x38 0, .byte 0x3C 0] (by decide +kernel)
  exact ⟨p, hrun, hp, modifiers_tracked_iff hrun⟩

/-- Both shift keys are pressed and the left one is released. -/
theorem modifiers_not_tracked : ¬ ∀ p, keyboardSystem.Reachable p →
    Tracks p.2 p.1.console.modes := by
  intro hall
  obtain ⟨p, hrun, hmode, hheld⟩ := System.Reachable.exists_of_run sampleKeyboard_init
    [.byte 0x2A 0, .byte 0x36 0, .byte 0xAA 0]
    (P := fun p => p.1.console.modes.key_mode = 0 ∧ p.2.right = true) (by decide +kernel)
  have hon := (hall p hrun).shift.mpr (Or.inr hheld)
  omega

end Kernel391
