import Kernel391.Drivers
import Kernel391.Isolation
import Kernel391.Screen

/-!
# Terminals on and off display

Each terminal has a screen and a line, wherever they are kept: in video memory and the live
line buffer while it is displayed, in its backups otherwise (`screenOf`, `lineOf`). A
terminal switch moves both and changes neither (`switch_terminal_screenOf`,
`switch_terminal_lineOf`), and what one terminal's output and the keys typed on it change is
that terminal's alone, because the four screens lie in four different pages.
-/

namespace Kernel391

open TransitionSystem

/-! ## The pages of the screens -/

/-- The page of the screen saved for a terminal. -/
def backupOf (t : TermId) : ℕ := VIDEO + four_KB * (t + 1)

/-- The screens lie where `init_term` put them. -/
def Placed (s : Console) : Prop := ∀ t, (s.term t).vid_backup = backupOf t

theorem Placed.of_same {s s' : Console} (h : Placed s) (hs : SameScreens s s') : Placed s' := by
  intro t
  rw [hs t, h t]

theorem init_term_console_placed (s : Console) : Placed (init_term_console s) := by
  intro t
  match t with
  | 0 => rfl
  | 1 => rfl
  | 2 => rfl

theorem Placed.base_lt {s : Console} (h : Placed s) (t : TermId) :
    (s.term t).vid_backup < 2 ^ 31 := by
  have ht : t.val < 3 := t.isLt
  rw [h t]
  simp only [backupOf, VIDEO, four_KB]
  omega

/-- A saved screen lies behind video memory, with a gap. -/
theorem Placed.behind {s : Console} (h : Placed s) (t : TermId) :
    (VIDEO : ℤ) + 4096 ≤ (s.term t).vid_backup := by
  rw [h t]
  simp only [backupOf, VIDEO, four_KB]
  omega

/-- Two saved screens do not overlap. -/
theorem Placed.apart {s : Console} (h : Placed s) {t u : TermId} (hne : t ≠ u) :
    ((s.term t).vid_backup : ℤ) + SCREEN_SIZE ≤ (s.term u).vid_backup ∨
      ((s.term u).vid_backup : ℤ) + SCREEN_SIZE ≤ (s.term t).vid_backup := by
  have hval : t.val ≠ u.val := fun heq => hne (Fin.ext heq)
  have hsize : SCREEN_SIZE = 4000 := rfl
  rw [h t, h u]
  simp only [backupOf, VIDEO, four_KB]
  omega

/-! ## Screens and lines -/

/-- The screen of a terminal, while `curr_term` is displayed. -/
def screenOf (curr_term t : TermId) (s : Console) : Screen :=
  if t = curr_term then s.screen else s.backup t

/-- The line of a terminal. -/
def lineOf (curr_term t : TermId) (s : Console) : List KeyCell :=
  if t = curr_term then s.live else s.saved t

section
variable {curr_term t : TermId} {s s' : Console}

theorem screenOf_self : screenOf t t s = s.screen := if_pos rfl

theorem screenOf_of_ne (h : t ≠ curr_term) : screenOf curr_term t s = s.backup t := if_neg h

theorem lineOf_self : lineOf t t s = s.live := if_pos rfl

theorem lineOf_of_ne (h : t ≠ curr_term) : lineOf curr_term t s = s.saved t := if_neg h

/-- A saved screen whose memory and cursor stay is the same screen. -/
theorem backup_congr (hbase : (s'.term t).vid_backup = (s.term t).vid_backup)
    (hcursor : (s'.term t).cursor_location = (s.term t).cursor_location)
    (hmem : ∀ a, ((s.term t).vid_backup : ℤ) ≤ a → a < (s.term t).vid_backup + SCREEN_SIZE →
      s'.vmem a = s.vmem a) : s'.backup t = s.backup t := by
  unfold Console.backup
  rw [hbase, hcursor, screenAt_congr hmem]

end

/-! ## A terminal switch -/

section
variable (old new t : TermId) (s : Console)

theorem switch_terminal_vmem (hne : old ≠ new) :
    (switch_terminal old new s).vmem = copyScreen VIDEO (s.term new).vid_backup
      (copyScreen (s.term old).vid_backup VIDEO s.vmem) := by
  unfold switch_terminal save_term_info restore_term_info clear_keyboard_backup
    clear_keyboard_buffer Console.modTerm
  simp [hne.symm]

theorem switch_terminal_current_location (hne : old ≠ new) :
    (switch_terminal old new s).current_location = (s.term new).cursor_location := by
  unfold switch_terminal save_term_info restore_term_info clear_keyboard_backup
    clear_keyboard_buffer Console.modTerm
  simp [hne.symm]

theorem switch_terminal_cursor_location :
    ((switch_terminal old new s).term t).cursor_location =
      if t = old then s.current_location else (s.term t).cursor_location := by
  unfold switch_terminal save_term_info restore_term_info clear_keyboard_backup
    clear_keyboard_buffer Console.modTerm
  by_cases ht : t = old
  · simp [ht]
  · simp [ht]

theorem switch_terminal_live (hne : old ≠ new)
    (hlen : (s.saved new).length ≤ KEYBOARD_BUFFER_SIZE) :
    (switch_terminal old new s).live = s.saved new := by
  unfold Console.saved at hlen
  rw [length_cells] at hlen
  unfold switch_terminal save_term_info restore_term_info clear_keyboard_backup
    clear_keyboard_buffer Console.modTerm Console.live Console.saved
  simp only [Function.update_of_ne hne.symm]
  exact copyBuffer_cells _ _ hlen

theorem switch_terminal_saved (hlen : s.live.length ≤ KEYBOARD_BUFFER_SIZE) :
    (switch_terminal old new s).saved t = if t = old then s.live else s.saved t := by
  rw [length_live] at hlen
  unfold switch_terminal save_term_info restore_term_info clear_keyboard_backup
    clear_keyboard_buffer Console.modTerm Console.saved
  by_cases ht : t = old
  · rw [if_pos ht, ht]
    simp only [Function.update_self]
    exact copyBuffer_cells _ _ hlen
  · rw [if_neg ht]
    simp only [Function.update_of_ne ht]

end

section
variable {old new : TermId} {s : Console}

/-- A switch changes no screen. -/
theorem switch_terminal_screenOf (hs : Placed s) (hne : old ≠ new) (t : TermId) :
    screenOf new t (switch_terminal old new s) = screenOf old t s := by
  have hsize : SCREEN_SIZE = 4000 := rfl
  have hold := hs.behind old
  have hvmem := switch_terminal_vmem old new s hne
  by_cases hnew : t = new
  · rw [hnew, screenOf_self, screenOf_of_ne hne.symm]
    ext1
    · -- copied from the backup, which the copy into the other one has not touched
      show screenAt (switch_terminal old new s).vmem VIDEO = _
      rw [hvmem, screenAt_copy]
      apply screenAt_congr
      intro a hlo hhi
      have hapart := hs.apart hne
      unfold copyScreen
      rw [if_neg (by omega)]
    · exact switch_terminal_current_location old new s hne
  rw [screenOf_of_ne hnew]
  have hbehind := hs.behind t
  have hbase := switch_terminal_screens old new s t
  have hcursor := switch_terminal_cursor_location old new t s
  by_cases ht : t = old
  · rw [if_pos ht] at hcursor
    rw [ht, screenOf_self]
    rw [ht] at hbase hcursor
    ext1
    · show screenAt (switch_terminal old new s).vmem _ = screenAt s.vmem VIDEO
      rw [hbase, hvmem, ← screenAt_copy (s.term old).vid_backup VIDEO s.vmem]
      apply screenAt_congr
      intro a hlo hhi
      unfold copyScreen
      rw [if_neg (by omega)]
    · exact hcursor
  · rw [if_neg ht] at hcursor
    rw [screenOf_of_ne ht]
    apply backup_congr hbase hcursor
    intro a hlo hhi
    have hapart := hs.apart ht
    rw [hvmem]
    unfold copyScreen
    rw [if_neg (by omega), if_neg (by omega)]

/-- A switch changes no line. -/
theorem switch_terminal_lineOf (hne : old ≠ new)
    (hlen : ∀ t, (lineOf old t s).length ≤ KEYBOARD_BUFFER_SIZE) (t : TermId) :
    lineOf new t (switch_terminal old new s) = lineOf old t s := by
  have hlive := hlen old
  have hsaved := hlen new
  rw [lineOf_self] at hlive
  rw [lineOf_of_ne hne.symm] at hsaved
  by_cases hnew : t = new
  · rw [hnew, lineOf_self, lineOf_of_ne hne.symm, switch_terminal_live old new s hne hsaved]
  · rw [lineOf_of_ne hnew, switch_terminal_saved old new t s hlive]
    unfold lineOf
    split_ifs <;> rfl

end

/-! ## Output of the displayed terminal -/

/-- Row and column as `putc` computes them, and the offset they stand for. -/
theorem cursor_offset_lt {location : ℤ} (h : location < 4000) :
    2 * (80 * location.tdiv 160 + (location.tmod 160).tdiv 2) < 4000 := by
  by_cases h0 : 0 ≤ location
  · rw [Int.tdiv_eq_ediv_of_nonneg h0, Int.tmod_eq_emod_of_nonneg h0,
      Int.tdiv_eq_ediv_of_nonneg (by omega)]
    omega
  · -- both are negative or zero
    have hrow : location.tdiv 160 ≤ 0 := by
      have hneg : 0 ≤ (-location).tdiv 160 := Int.tdiv_nonneg (by omega) (by decide)
      rw [Int.neg_tdiv] at hneg
      omega
    have hcol : (location.tmod 160).tdiv 2 ≤ 0 := by
      have hneg : 0 ≤ ((-location).tmod 160).tdiv 2 := by
        apply Int.tdiv_nonneg _ (by decide)
        exact Int.tmod_nonneg _ (by omega)
      rw [Int.neg_tmod, Int.neg_tdiv] at hneg
      omega
    omega

/-- Nothing behind the page of video memory changes. -/
def KeepsBehind (s s' : Console) : Prop := ∀ a : ℤ, (VIDEO : ℤ) + 4096 ≤ a → s'.vmem a = s.vmem a

theorem KeepsBehind.refl (s : Console) : KeepsBehind s s := fun _ _ => rfl

theorem KeepsBehind.trans {s s' s'' : Console} (h : KeepsBehind s s') (h' : KeepsBehind s' s'') :
    KeepsBehind s s'' :=
  fun a ha => (h' a ha).trans (h a ha)

theorem scroll_behind (s : Console) : KeepsBehind s (scroll s) := by
  intro a ha
  have hsize : SCREEN_SIZE = 4000 := rfl
  exact scrollScreen_outside _ (by omega)

theorem store_behind (s : Console) {a : ℤ} (b : UInt8) (ha : a < (VIDEO : ℤ) + 4096) :
    KeepsBehind s (s.store a b) :=
  fun _ ha' => Function.update_of_ne (by omega) ..

theorem putc_behind (t : TermId) (c : UInt8) {s : Console} (h : s.current_location < 4000) :
    KeepsBehind s (putc t c s) := by
  intro a ha
  have hoff := cursor_offset_lt h
  have hsize : SCREEN_SIZE = 4000 := rfl
  have hcols : (NUM_COLS : ℤ) = 80 := rfl
  have hscroll : ∀ vmem, scrollScreen VIDEO vmem a = vmem a := fun vmem =>
    scrollScreen_outside vmem (by omega)
  unfold putc scroll Console.store
  dsimp only
  split_ifs
  · simp only [hscroll]
  · simp only [hscroll]
  · simp only [hscroll]
  · rfl
  · simp only [hscroll]
  · simp only [hscroll]
  · simp only [hscroll]
  · rfl
  · -- the character is one row up after the scroll
    dsimp only
    rw [Function.update_of_ne, Function.update_of_ne, hscroll]
    · simp only [hcols, Int.reduceMul]
      omega
    · simp only [hcols, Int.reduceMul]
      omega
  · dsimp only
    rw [Function.update_of_ne, Function.update_of_ne]
    · simp only [hcols, Int.reduceMul]
      omega
    · simp only [hcols, Int.reduceMul]
      omega

/-! ## Keys -/

/-- Only what is live changes, and whether a terminal has a line to read. -/
structure LiveOnly (s s' : Console) : Prop where
  behind : KeepsBehind s s'
  saved : ∀ u, ∃ b, s'.term u = { s.term u with has_enter := b }

namespace LiveOnly

variable {s s' s'' : Console}

theorem of_term (hb : KeepsBehind s s') (ht : s'.term = s.term) : LiveOnly s s' :=
  ⟨hb, fun u => ⟨(s.term u).has_enter, by rw [ht]⟩⟩

theorem of_eq (hv : s'.vmem = s.vmem) (ht : s'.term = s.term) : LiveOnly s s' :=
  of_term (fun a _ => congrFun hv a) ht

theorem refl (s : Console) : LiveOnly s s := of_eq rfl rfl

theorem trans (h : LiveOnly s s') (h' : LiveOnly s' s'') : LiveOnly s s'' := by
  refine ⟨h.behind.trans h'.behind, fun u => ?_⟩
  obtain ⟨b, hb⟩ := h.saved u
  obtain ⟨b', hb'⟩ := h'.saved u
  exact ⟨b', by rw [hb', hb]⟩

theorem screens (h : LiveOnly s s') : SameScreens s s' := by
  intro u
  obtain ⟨b, hb⟩ := h.saved u
  rw [hb]

/-- What is saved for a terminal stays. -/
theorem backup (h : LiveOnly s s') (hs : Placed s) (t : TermId) : s'.backup t = s.backup t := by
  obtain ⟨b, hb⟩ := h.saved t
  have hbehind := hs.behind t
  apply backup_congr
  · rw [hb]
  · rw [hb]
  · intro a hlo _
    exact h.behind a (by omega)

theorem saved_line (h : LiveOnly s s') (t : TermId) : s'.saved t = s.saved t := by
  obtain ⟨b, hb⟩ := h.saved t
  unfold Console.saved
  rw [hb]

end LiveOnly

section
variable {s s' : Console}

theorem has_enter_liveOnly (t : TermId) (v : Bool) (s : Console) :
    LiveOnly s (s.modTerm t fun i => { i with has_enter := v }) := by
  refine ⟨KeepsBehind.refl s, fun u => ?_⟩
  by_cases hu : u = t
  · rw [hu, Console.modTerm_self]
    exact ⟨v, rfl⟩
  · rw [Console.modTerm_of_ne _ _ _ _ hu]
    exact ⟨(s.term u).has_enter, rfl⟩

theorem putc_liveOnly (t : TermId) (c : UInt8) (h : s.current_location < 4000) :
    LiveOnly s (putc t c s) :=
  LiveOnly.of_term (putc_behind t c h) (putc_term_eq t c s)

theorem handle_scroll_liveOnly (s : Console) : LiveOnly s (handle_scroll s) :=
  LiveOnly.of_term (scroll_behind s) rfl

/-- A character and its attribute. -/
theorem draw_liveOnly (s : Console) (b b' : UInt8) {a : ℤ} (ha : a < (VIDEO : ℤ) + 4095) :
    LiveOnly s ((s.store a b).store (a + 1) b') := by
  have hfirst := store_behind s b (a := a) (by omega)
  have hsecond := store_behind (s.store a b) b' (a := a + 1) (by omega)
  exact LiveOnly.of_term (hfirst.trans hsecond) rfl

theorem handle_enter_liveOnly (t : TermId) (s : Console) : LiveOnly s (handle_enter t s) := by
  unfold handle_enter
  dsimp only
  split_ifs
  · exact LiveOnly.refl s
  · exact (handle_scroll_liveOnly s).trans (has_enter_liveOnly t true _)
  · refine LiveOnly.trans ?_ (has_enter_liveOnly t true _)
    exact LiveOnly.of_eq rfl rfl

theorem echo_liveOnly (t : TermId) (c : UInt8) (s : Console) : LiveOnly s (echo t c s) := by
  have hcell : (NUM_COLS : ℤ) * NUM_ROWS * 2 = 4000 := rfl
  unfold echo
  dsimp only
  rw [hcell]
  split_ifs with hin hfull
  · exact (putc_liveOnly t c hin).trans (handle_scroll_liveOnly _)
  · exact putc_liveOnly t c hin
  · -- `handle_scroll` puts the cursor on the last row
    apply (handle_scroll_liveOnly s).trans
    apply putc_liveOnly
    show ((NUM_ROWS : ℤ) - 1) * NUM_COLS * 2 < 4000
    decide

/-- A column of a Tab, and where it leaves the cursor. -/
theorem tabColumn_liveOnly {n : ℤ} (hn : n ≤ 4088) (h : s.current_location < n)
    (h4000 : 4000 ≤ n) :
    LiveOnly s (tabColumn s) ∧ (tabColumn s).current_location < n + 2 := by
  have hrow : ((NUM_ROWS : ℤ) - 1) * NUM_COLS * 2 = 3840 := rfl
  -- the column itself, once the cursor has been moved off the middle of the screen
  have hdraw : ∀ s₁ : Console, LiveOnly s s₁ → s₁.current_location < n →
      LiveOnly s { (s₁.store (VIDEO + s₁.current_location) (scancode_map 0 57)).store
        (VIDEO + s₁.current_location + 1) BLACK with
        current_location := s₁.current_location + 2 } := by
    intro s₁ h₁ hlt
    have hcell := draw_liveOnly s₁ (scancode_map 0 57) BLACK (a := VIDEO + s₁.current_location)
      (by omega)
    exact h₁.trans (hcell.trans (LiveOnly.of_eq rfl rfl))
  unfold tabColumn
  dsimp only
  generalize hs₁ : (if s.current_location = (NUM_COLS : ℤ) * NUM_ROWS then handle_scroll s
    else s) = s₁
  obtain ⟨hlive, hlt⟩ : LiveOnly s s₁ ∧ s₁.current_location < n := by
    rw [← hs₁]
    split_ifs
    · refine ⟨handle_scroll_liveOnly s, ?_⟩
      show ((NUM_ROWS : ℤ) - 1) * NUM_COLS * 2 < n
      omega
    · exact ⟨LiveOnly.refl s, h⟩
  split_ifs
  · refine ⟨(hdraw s₁ hlive hlt).trans (handle_scroll_liveOnly _), ?_⟩
    show ((NUM_ROWS : ℤ) - 1) * NUM_COLS * 2 < n + 2
    omega
  · refine ⟨hdraw s₁ hlive hlt, ?_⟩
    show s₁.current_location + 2 < n + 2
    omega

theorem handle_tab_liveOnly (h : s.current_location < 4000) : LiveOnly s (handle_tab s) := by
  obtain ⟨h1, hl1⟩ := tabColumn_liveOnly (n := 4000) (by decide) h (by decide)
  obtain ⟨h2, hl2⟩ := tabColumn_liveOnly (n := 4002) (by decide) hl1 (by decide)
  obtain ⟨h3, hl3⟩ := tabColumn_liveOnly (n := 4004) (by decide) hl2 (by decide)
  obtain ⟨h4, -⟩ := tabColumn_liveOnly (n := 4006) (by decide) hl3 (by decide)
  unfold handle_tab
  split_ifs
  · exact LiveOnly.refl s
  · exact ((h1.trans h2).trans h3).trans h4

theorem handle_backspace_liveOnly {t : TermId} (h : s.current_location < 4000)
    (hs : handle_backspace t s = some s') : LiveOnly s s' := by
  -- the last step erases the character from the line
  have herase : ∀ s₁ : Console, LiveOnly s s₁ → LiveOnly s { s₁ with
      keyboard_buffer := Function.update s₁.keyboard_buffer (keyIndex s₁ 1) NULL_KEY
      length_key := s₁.length_key - 1 } := fun s₁ h₁ => h₁.trans (LiveOnly.of_eq rfl rfl)
  unfold handle_backspace at hs
  dsimp only at hs
  split_ifs at hs
  · exact Option.some.inj hs ▸ LiveOnly.refl s
  · exact Option.some.inj hs ▸ LiveOnly.refl s
  · rw [Option.bind_eq_bind, Option.bind_some, Option.some.injEq] at hs
    exact hs ▸ herase _ (LiveOnly.of_eq rfl rfl)
  · rw [Option.bind_eq_bind, Option.bind_some, Option.some.injEq] at hs
    exact hs ▸ herase _ (LiveOnly.of_eq rfl rfl)
  · rw [Option.bind_eq_bind, Option.bind_eq_some_iff] at hs
    obtain ⟨loc, -, hs⟩ := hs
    rw [Option.bind_eq_bind, Option.bind_some, Option.some.injEq] at hs
    exact hs ▸ herase _ (LiveOnly.of_eq rfl rfl)
  · rw [Option.bind_eq_bind, Option.bind_some, Option.some.injEq] at hs
    have hcell := draw_liveOnly s 0 (attrib t) (a := VIDEO + (s.current_location - 2)) (by omega)
    exact hs ▸ herase _ (hcell.trans (LiveOnly.of_eq rfl rfl))

theorem clear_liveOnly (t : TermId) (s : Console) : LiveOnly s (clear t s) := by
  have hsize : SCREEN_SIZE = 4000 := rfl
  refine LiveOnly.of_term (fun a ha => ?_) rfl
  show clearScreen VIDEO t s.vmem a = s.vmem a
  unfold clearScreen
  rw [if_neg (by omega)]

/-- A key changes the live screen and line only. -/
theorem process_char_liveOnly {t : TermId} {scode i : ℕ} (h : s.current_location < 4000)
    (hs : process_char t scode s = some (s', i)) : LiveOnly s s' := by
  rcases process_char_ends hs with ⟨-, hback⟩ | ⟨-, -, rfl⟩ | ⟨-, -, rfl⟩ | ⟨-, rfl⟩ | ⟨-, rfl⟩ |
    ⟨-, mode, cap, ctrl, alt, rfl⟩
  · exact handle_backspace_liveOnly h hback
  · exact (handle_tab_liveOnly h).trans (LiveOnly.of_eq rfl rfl)
  · exact (handle_enter_liveOnly t s).trans (LiveOnly.of_eq rfl rfl)
  · exact (clear_liveOnly t s).trans (LiveOnly.of_eq rfl rfl)
  · unfold process_key
    dsimp only
    split_ifs
    · exact LiveOnly.refl s
    · refine LiveOnly.trans ?_ (echo_liveOnly t _ _)
      exact LiveOnly.of_eq rfl rfl
  · exact LiveOnly.of_eq rfl rfl

end

/-! ## The kernel keeps the screens in their pages -/

section
variable {m : Machine} {k k' : Kernel}

theorem schedule_console {t : TermId} {p : Pid} {fr : Frame} (h : schedule m t p fr k = some k') :
    k'.console = k.console ∧ k'.curr_term = k.curr_term := by
  -- whether or not the video page is moved
  have hpaging : ∀ (c : Prop) [Decidable c] (f : Paging → Paging) (k₁ : Kernel),
      (if c then k₁.modPaging f else k₁).console = k₁.console ∧
        (if c then k₁.modPaging f else k₁).curr_term = k₁.curr_term := by
    intro c _ f k₁
    split_ifs
    · exact ⟨rfl, rfl⟩
    · exact ⟨rfl, rfl⟩
  unfold schedule at h
  dsimp only at h
  rw [Option.bind_eq_bind, Option.bind_eq_some_iff] at h
  obtain ⟨curr, -, h⟩ := h
  rw [Option.some.injEq] at h
  rw [← h]
  exact hpaging _ _ (vidmap m k)

/-- The timer changes neither screens nor lines. -/
theorem pit_interrupt_handler_console {fr : Frame}
    (h : pit_interrupt_handler m fr k = some k') :
    k'.console = k.console ∧ k'.curr_term = k.curr_term := by
  unfold pit_interrupt_handler at h
  dsimp only at h
  split_ifs at h
  · rw [Option.bind_eq_bind, Option.bind_eq_some_iff] at h
    obtain ⟨p, -, h⟩ := h
    rw [Option.bind_eq_bind, Option.bind_eq_some_iff] at h
    obtain ⟨k₁, hsched, h⟩ := h
    rw [Option.some.injEq] at h
    obtain ⟨hconsole, hterm⟩ := schedule_console hsched
    rw [← h]
    exact ⟨hconsole, hterm⟩
  · exact Option.some.inj h ▸ ⟨rfl, rfl⟩

theorem execute_func_screens {caller : Caller} {command : Bytes} {fr : Frame} {out : Outcome}
    (h : execute_func m caller command fr k = some (k', out)) :
    SameScreens k.console k'.console := by
  rcases execute_func_cases h with ⟨fs, -, -, rfl⟩ | ⟨x, -, -, -, console, hterm, rfl⟩ |
    ⟨x, p, -, -, -, -, frame, console, hterm, rfl⟩
  · exact fun _ => rfl
  · exact sameScreens_of_term_eq hterm
  · exact sameScreens_of_term_eq hterm

theorem halt_target_screens {status : UInt8} {fr : Frame} {victim : Pid} {t : TermId}
    (h : halt_target status fr k = some (victim, t, k')) : SameScreens k.console k'.console := by
  obtain ⟨console, hscreens, hcases⟩ := halt_target_cases h
  rcases hcases with ⟨-, -, -, -, rfl⟩ | ⟨-, -, -, -, running, -, rfl⟩ | ⟨-, -, -, rfl⟩ <;>
    exact hscreens

theorem SameScreens.trans {s s' s'' : Console} (h : SameScreens s s') (h' : SameScreens s' s'') :
    SameScreens s s'' :=
  fun t => (h' t).trans (h t)

theorem halt_func_screens {status : UInt8} {fr frShell : Frame} {out : Outcome}
    (h : halt_func m status fr frShell k = some (k', out)) :
    SameScreens k.console k'.console := by
  obtain ⟨victim, t, k₁, htarget, -, hend⟩ := halt_func_cases h
  have hscreens : SameScreens k.cli.console k₁.console := halt_target_screens htarget
  rcases hend with ⟨parent, -, heq⟩ | ⟨-, e, -, hex⟩
  · rw [show k' = _ from congrArg Prod.fst heq]
    exact hscreens
  · have hshell := execute_func_screens hex
    exact hscreens.trans hshell

theorem launch_term_screens {t : TermId} {fr frShell : Frame} {out : Outcome}
    (h : launch_term m t fr frShell k = some (k', out)) : SameScreens k.console k'.console := by
  have hswitch : SameScreens k.console (switch_terminal k.curr_term t k.console) :=
    switch_terminal_screens _ _ _
  rcases launch_term_cases h with ⟨-, rfl, -⟩ | ⟨-, -, old, -, r, hex, -⟩ | ⟨-, -, rfl, -⟩
  · exact fun _ => rfl
  · exact hswitch.trans (execute_func_screens hex)
  · exact hswitch

/-- No operation moves a saved screen. -/
theorem step_screens {e : Event} {out : Outcome} (h : step m k e = some (k', out)) :
    SameScreens k.console k'.console := by
  rcases step_quiet h with ⟨command, fr, rfl⟩ | ⟨status, fr, frShell, rfl⟩ |
    ⟨t, fr, frShell, rfl⟩ | ⟨fr, rfl⟩ |
    ⟨⟨table, freq, paging, console, fs, frame, hscreens, rfl⟩, -⟩
  · exact execute_func_screens h
  · exact halt_func_screens h
  · exact launch_term_screens h
  · rw [SameScreens, (pit_interrupt_handler_console (step_tick h).1).1]
    exact fun _ => rfl
  · exact hscreens

/-- In every state of the running kernel they are where `init_term` put them. -/
theorem Reachable.placed (h : Reachable m k) : Placed k.console := by
  refine System.ReachableWhere.invariant (P := fun k : Kernel => Placed k.console) h
    (fun k h0 => ?_) fun k e k' _ hk _ hs => ?_
  · obtain ⟨mem, -, fr, e, hex⟩ := h0
    exact (init_term_console_placed mem.console).of_same (execute_func_screens hex)
  · obtain ⟨out, hs⟩ := system_step_iff.mp hs
    exact hk.of_same (step_screens hs)

end

end Kernel391
