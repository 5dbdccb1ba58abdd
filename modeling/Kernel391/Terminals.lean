import Kernel391.Display

/-!
# Output and switching over whole runs

The three terminals while the user switches between them: terminal switches, timer ticks,
keys, and the running process's output and input, in any order. Two results about every
run, each with a history variable:

* what a terminal shows is what its processes have written, displayed or not, as long as
  the two character routines agree on what they write while it is hidden
  (`output_independent`);
* a terminal that is left and displayed again is as it was, whatever happens on the others
  (`round_trip`).
-/

namespace Kernel391

open TransitionSystem

/-! ## The display as a system -/

inductive DisplayEvent where
  /-- `launch_term`, for a terminal that has a process. -/
  | launch (t : TermId) (fr frShell : Frame)
  | tick (fr : Frame)
  /-- `process_char`; what the handler goes on to do is an event of its own. -/
  | key (scode : ℕ)
  /-- `terminal_write` by the running process. -/
  | write (buf : Bytes) (nbytes : ℤ)
  /-- `terminal_read` by the running process. -/
  | read (nbytes : ℤ)

def displayStep (m : Machine) (k : Kernel) : DisplayEvent → Option Kernel
  | .launch t fr frShell =>
    if k.running_pid t = none then none else (launch_term m t fr frShell k).map Prod.fst
  | .tick fr => pit_interrupt_handler m fr k
  | .key scode =>
    (process_char k.curr_term scode k.console).map fun (s, _) => { k with console := s }
  | .write buf nbytes => some (terminal_write buf nbytes k).1
  | .read nbytes => (terminal_read nbytes k).map Prod.fst

def display (m : Machine) : System Kernel DisplayEvent where
  init k := Placed k.console
  step := displayStep m

section
variable {m : Machine} {k k' : Kernel}

theorem displayStep_launch {t : TermId} {fr frShell : Frame}
    (h : displayStep m k (.launch t fr frShell) = some k') :
    (k'.console = k.console ∧ k'.curr_term = k.curr_term) ∨
      (k.curr_term ≠ t ∧ k'.console = switch_terminal k.curr_term t k.console ∧
        k'.curr_term = t) := by
  unfold displayStep at h
  dsimp only at h
  split_ifs at h with hnone
  rw [Option.map_eq_some_iff] at h
  obtain ⟨⟨k₁, out⟩, hlaunch, rfl⟩ := h
  rcases launch_term_cases hlaunch with ⟨-, rfl, -⟩ | ⟨-, hno, -⟩ | ⟨hne, -, rfl, -⟩
  · exact Or.inl ⟨rfl, rfl⟩
  · exact absurd hno hnone
  · exact Or.inr ⟨hne.symm, rfl, rfl⟩

theorem displayStep_key {scode : ℕ} (h : displayStep m k (.key scode) = some k') :
    ∃ s i, process_char k.curr_term scode k.console = some (s, i) ∧
      k' = { k with console := s } := by
  unfold displayStep at h
  rw [Option.map_eq_some_iff] at h
  obtain ⟨⟨s, i⟩, hkey, rfl⟩ := h
  exact ⟨s, i, hkey, rfl⟩

/-- A read empties the live line. -/
theorem terminal_read_console {nbytes : ℤ} {r : ReadResult}
    (h : terminal_read nbytes k = some (k', r)) :
    k'.curr_term = k.curr_term ∧ LiveOnly k.console k'.console ∧
      k'.console.screen = k.console.screen := by
  unfold terminal_read at h
  dsimp only at h
  split_ifs at h
  · rw [Option.some.injEq, Prod.mk.injEq] at h
    rw [← h.1]
    refine ⟨rfl, ?_, rfl⟩
    exact (has_enter_liveOnly k.running_term false k.console).trans (LiveOnly.of_eq rfl rfl)
  · rw [Option.some.injEq, Prod.mk.injEq] at h
    rw [← h.1]
    refine ⟨rfl, ?_, rfl⟩
    exact (has_enter_liveOnly k.running_term false k.console).trans (LiveOnly.of_eq rfl rfl)

end

/-! ## Printing a string -/

/-- The two routines agree on every character of a string, each at the cursor the ones
before it leave. -/
def AgreesAll (attr : UInt8) : List UInt8 → Screen → Prop
  | [], _ => True
  | c :: bytes, v => Agrees v.location c ∧ AgreesAll attr bytes (v.emit attr c)

instance decidableAgreesAll (attr : UInt8) : ∀ bytes v, Decidable (AgreesAll attr bytes v)
  | [], _ => isTrue trivial
  | c :: bytes, v =>
    have := decidableAgreesAll attr bytes (v.emit attr c)
    inferInstanceAs (Decidable (Agrees v.location c ∧ AgreesAll attr bytes (v.emit attr c)))

theorem Screen.emitAll_near {attr : UInt8} (bytes : List UInt8) {v : Screen} (h : v.Near) :
    (v.emitAll attr bytes).Near := by
  unfold Screen.emitAll
  induction bytes generalizing v with
  | nil => exact h
  | cons c bytes ih =>
    rw [List.foldl_cons]
    apply ih
    exact Screen.emit_near h attr c

section
variable {t : TermId} {s : Console}

theorem foldl_putc_screen (bytes : List UInt8) (s : Console) :
    (bytes.foldl (fun s c => putc t c s) s).screen = s.screen.emitAll (attrib t) bytes := by
  unfold Screen.emitAll
  induction bytes generalizing s with
  | nil => rfl
  | cons c bytes ih => rw [List.foldl_cons, List.foldl_cons, ih, putc_screen]

theorem foldl_putc_liveOnly (bytes : List UInt8) (h : s.screen.Near) :
    LiveOnly s (bytes.foldl (fun s c => putc t c s) s) := by
  induction bytes generalizing s with
  | nil => exact LiveOnly.refl s
  | cons c bytes ih =>
    rw [List.foldl_cons]
    apply (putc_liveOnly t c h.2).trans
    apply ih
    rw [putc_screen]
    exact Screen.emit_near h _ c

/-- A string on a hidden terminal, with the cursor on the screen. -/
theorem foldl_putc_term_draws (bytes : List UInt8) (hbase : (s.term t).vid_backup < 2 ^ 31)
    (h0 : 0 ≤ (s.term t).cursor_location) (hhi : (s.term t).cursor_location < 4000) :
    DrawsOn t s (bytes.foldl (fun s c => putc_term c t s) s) := by
  induction bytes generalizing s with
  | nil => exact DrawsOn.refl t s
  | cons c bytes ih =>
    have hfirst : DrawsOn t s (putc_term c t s) := putc_term_draws hbase (Or.inr ⟨h0, hhi⟩)
    have hinside := putc_term_inside (c := c) h0 hhi
    rw [List.foldl_cons]
    apply hfirst.trans
    apply ih
    · rw [hfirst.base t]
      exact hbase
    · exact hinside.1
    · exact hinside.2

/-- Where the routines agree, such a string is printed as on display. -/
theorem foldl_putc_term_backup (bytes : List UInt8) (hbase : (s.term t).vid_backup < 2 ^ 31)
    (hnear : (s.backup t).Near) (hagrees : AgreesAll (attrib t) bytes (s.backup t)) :
    (bytes.foldl (fun s c => putc_term c t s) s).backup t =
        (s.backup t).emitAll (attrib t) bytes ∧
      DrawsOn t s (bytes.foldl (fun s c => putc_term c t s) s) := by
  unfold Screen.emitAll
  induction bytes generalizing s with
  | nil => exact ⟨rfl, DrawsOn.refl t s⟩
  | cons c bytes ih =>
    obtain ⟨hc, hrest⟩ := hagrees
    have hfirst : (putc_term c t s).backup t = (s.backup t).emit (attrib t) c :=
      putc_term_backup hnear.1 hnear.2 hbase hc
    have hdraws : DrawsOn t s (putc_term c t s) :=
      putc_term_draws hbase (hc.imp id fun h => ⟨h.1, hnear.2⟩)
    rw [List.foldl_cons, List.foldl_cons, ← hfirst]
    rw [← hfirst] at hrest
    have hnear' : ((putc_term c t s).backup t).Near := hfirst ▸ Screen.emit_near hnear _ c
    obtain ⟨hscreen, htail⟩ := ih (by rw [hdraws.base t]; exact hbase) hnear' hrest
    exact ⟨hscreen, hdraws.trans htail⟩

end

/-! ## What each event leaves alone -/

section
variable {curr_term t u : TermId} {s s' : Console}

theorem LiveOnly.placed (h : LiveOnly s s') (hs : Placed s) : Placed s' := hs.of_same h.screens

theorem DrawsOn.placed (h : DrawsOn t s s') (hs : Placed s) : Placed s' := hs.of_same h.base

/-- Drawing on a saved screen leaves the others alone. -/
theorem DrawsOn.screenOf (h : DrawsOn t s s') (hs : Placed s) (hu : u ≠ t) :
    screenOf curr_term u s' = screenOf curr_term u s := by
  have hsize : SCREEN_SIZE = 4000 := rfl
  have hbehind := hs.behind t
  by_cases hc : u = curr_term
  · rw [hc, screenOf_self, screenOf_self]
    ext1
    · apply screenAt_congr
      intro a hlo hhi
      exact h.memory a (Or.inl (by omega))
    · exact h.location
  · have hapart := hs.apart hu
    rw [screenOf_of_ne hc, screenOf_of_ne hc]
    apply backup_congr (h.base u) (h.cursor u hu)
    intro a hlo hhi
    exact h.memory a (by omega)

theorem SameLines.lineOf (h : SameLines s s') : lineOf curr_term u s' = lineOf curr_term u s := by
  unfold Kernel391.lineOf
  rw [h.live, h.saved]

end

/-- The screen and the line of a terminal are as they were. -/
def Keeps (u : TermId) (k k' : Kernel) : Prop :=
  screenOf k'.curr_term u k'.console = screenOf k.curr_term u k.console ∧
    lineOf k'.curr_term u k'.console = lineOf k.curr_term u k.console

section
variable {u : TermId} {k k' k'' : Kernel}

theorem Keeps.refl (u : TermId) (k : Kernel) : Keeps u k k := ⟨rfl, rfl⟩

theorem Keeps.trans (h : Keeps u k k') (h' : Keeps u k' k'') : Keeps u k k'' :=
  ⟨h'.1.trans h.1, h'.2.trans h.2⟩

theorem Keeps.of_eq (hs : k'.console = k.console) (hc : k'.curr_term = k.curr_term) :
    Keeps u k k' := by
  unfold Keeps
  rw [hs, hc]
  exact ⟨rfl, rfl⟩

/-- What happens to the live screen and line leaves a hidden terminal alone. -/
theorem LiveOnly.keeps (h : LiveOnly k.console k'.console) (hc : k'.curr_term = k.curr_term)
    (hs : Placed k.console) (hu : u ≠ k.curr_term) : Keeps u k k' := by
  unfold Keeps
  rw [hc, screenOf_of_ne hu, screenOf_of_ne hu, lineOf_of_ne hu, lineOf_of_ne hu]
  exact ⟨h.backup hs u, h.saved_line u⟩

/-- Lines below 128 characters, and cursors on the screen. -/
structure InBounds (k : Kernel) : Prop where
  line : ∀ t, (lineOf k.curr_term t k.console).length < KEYBOARD_BUFFER_SIZE
  cursor_nonneg : ∀ t, 0 ≤ (screenOf k.curr_term t k.console).location
  cursor_lt : ∀ t, (screenOf k.curr_term t k.console).location < 4000

theorem terminal_write_shown (buf : Bytes) (nbytes : ℤ) (hrun : k.running_term = k.curr_term) :
    (terminal_write buf nbytes k).1 =
      { k with
        console := (bytesOf buf nbytes).foldl (fun s c => putc k.curr_term c s) k.console } := by
  unfold terminal_write printChar Kernel.modConsole
  simp only [if_pos hrun]

theorem terminal_write_hidden (buf : Bytes) (nbytes : ℤ) (hrun : k.running_term ≠ k.curr_term) :
    (terminal_write buf nbytes k).1 =
      { k with console :=
          (bytesOf buf nbytes).foldl (fun s c => putc_term c k.running_term s) k.console } := by
  unfold terminal_write printChar Kernel.modConsole
  simp only [if_neg hrun]

/-- Output of the running process appears on its terminal, and nowhere else. -/
theorem terminal_write_keeps {buf : Bytes} {nbytes : ℤ} (hs : Placed k.console)
    (hb : InBounds k) (hu : u ≠ k.running_term) :
    Placed (terminal_write buf nbytes k).1.console ∧
      Keeps u k (terminal_write buf nbytes k).1 := by
  have h0 := hb.cursor_nonneg k.running_term
  have hhi := hb.cursor_lt k.running_term
  by_cases hrun : k.running_term = k.curr_term
  · rw [hrun, screenOf_self] at h0 hhi
    rw [terminal_write_shown buf nbytes hrun]
    have hlive := foldl_putc_liveOnly (t := k.curr_term) (bytesOf buf nbytes)
      (s := k.console) ⟨lt_of_lt_of_le (by decide) h0, hhi⟩
    exact ⟨hlive.placed hs, LiveOnly.keeps hlive rfl hs (hrun ▸ hu)⟩
  · rw [screenOf_of_ne hrun] at h0 hhi
    rw [terminal_write_hidden buf nbytes hrun]
    have hdraws := foldl_putc_term_draws (bytesOf buf nbytes) (hs.base_lt k.running_term) h0 hhi
    exact ⟨hdraws.placed hs, hdraws.screenOf hs hu, hdraws.lines.lineOf⟩

/-- No key is pressed while terminal `u` is displayed, none of its processes writes, and
nothing is read while it is displayed. -/
def AwayFrom (u : TermId) (k : Kernel) : DisplayEvent → Prop
  | .launch _ _ _ => True
  | .tick _ => True
  | .key _ => k.curr_term ≠ u
  | .write _ _ => k.running_term ≠ u
  | .read _ => k.curr_term ≠ u

/-- One event: the screen and the line of a terminal it is away from stay. -/
theorem displayStep_keeps {m : Machine} {e : DisplayEvent} (hs : Placed k.console)
    (hb : InBounds k) (hu : AwayFrom u k e) (h : displayStep m k e = some k') :
    Placed k'.console ∧ Keeps u k k' := by
  cases e with
  | launch t fr frShell =>
    rcases displayStep_launch h with ⟨hc, ht⟩ | ⟨hne, hc, ht⟩
    · exact ⟨hc.symm ▸ hs, Keeps.of_eq hc ht⟩
    · refine ⟨hc ▸ hs.of_same (switch_terminal_screens _ _ _), ?_⟩
      unfold Keeps
      rw [hc, ht, switch_terminal_screenOf hs hne, switch_terminal_lineOf hne]
      · exact ⟨rfl, rfl⟩
      · exact fun t => (hb.line t).le
  | tick fr =>
    obtain ⟨hc, ht⟩ := pit_interrupt_handler_console h
    exact ⟨hc.symm ▸ hs, Keeps.of_eq hc ht⟩
  | key scode =>
    obtain ⟨s, i, hkey, rfl⟩ := displayStep_key h
    have hhi := hb.cursor_lt k.curr_term
    rw [screenOf_self] at hhi
    have hlive := process_char_liveOnly hhi hkey
    exact ⟨hlive.placed hs, LiveOnly.keeps hlive rfl hs (Ne.symm hu)⟩
  | write buf nbytes =>
    obtain rfl : (terminal_write buf nbytes k).1 = k' := Option.some.inj h
    exact terminal_write_keeps hs hb (Ne.symm hu)
  | read nbytes =>
    unfold displayStep at h
    rw [Option.map_eq_some_iff] at h
    obtain ⟨⟨k₁, r⟩, hread, rfl⟩ := h
    obtain ⟨hc, hlive, -⟩ := terminal_read_console hread
    exact ⟨hlive.placed hs, hlive.keeps hc hs (Ne.symm hu)⟩

end

/-! ## Leaving a terminal and coming back -/

/-- What a run has done since terminal `a` was displayed: where it started, and which
terminals have been displayed or written on since. -/
structure Since where
  start : Kernel
  touched : TermId → Bool

/-- Note the terminal an event displays or writes on. -/
def Since.note (k : Kernel) (e : DisplayEvent) (h : Since) : Since :=
  match e with
  | .launch t _ _ => { h with touched := Function.update h.touched t true }
  | .write _ _ => { h with touched := Function.update h.touched k.running_term true }
  | _ => h

/-- Runs from any state in which terminal `a` is displayed. -/
def leaving (m : Machine) (a : TermId) : System (Kernel × Since) DisplayEvent :=
  (display m).withHistory
    (fun k h => k.curr_term = a ∧ h.start = k ∧ h.touched = fun _ => false) Since.note

/-- The run stays in bounds, and does nothing on terminal `a`. -/
def Elsewhere (a : TermId) (p : Kernel × Since) (e : DisplayEvent) : Prop :=
  InBounds p.1 ∧ AwayFrom a p.1 e

/-- What the user finds on the displayed terminal. -/
structure SameDisplay (k k' : Kernel) : Prop where
  video : ∀ i < SCREEN_SIZE, k'.console.vmem (VIDEO + i) = k.console.vmem (VIDEO + i)
  current_location : k'.console.current_location = k.console.current_location
  length_key : k'.console.length_key = k.console.length_key
  keyboard_buffer : ∀ i < k.console.length_key,
    k'.console.keyboard_buffer i = k.console.keyboard_buffer i

/-- What is saved for a terminal. -/
structure SameSaved (t : TermId) (k k' : Kernel) : Prop where
  vid_backup : (k'.console.term t).vid_backup = (k.console.term t).vid_backup
  video : ∀ i < SCREEN_SIZE, k'.console.vmem ((k.console.term t).vid_backup + i) =
    k.console.vmem ((k.console.term t).vid_backup + i)
  cursor_location : (k'.console.term t).cursor_location = (k.console.term t).cursor_location
  len_key_buf : (k'.console.term t).len_key_buf = (k.console.term t).len_key_buf
  term_key_buf : ∀ i < (k.console.term t).len_key_buf,
    (k'.console.term t).term_key_buf i = (k.console.term t).term_key_buf i

theorem cells_eq {n n' : ℕ} {b b' : ℕ → KeyCell} (h : cells n' b' = cells n b) :
    n' = n ∧ ∀ i < n, b' i = b i := by
  have hlen := congrArg List.length h
  rw [length_cells, length_cells] at hlen
  subst hlen
  refine ⟨rfl, fun i hi => ?_⟩
  have hget := congrArg (fun l : List KeyCell => l[i]?) h
  simpa [cells, hi] using hget

section
variable {k k' : Kernel} {t : TermId}

/-- A terminal that keeps its screen and its line, displayed again. -/
theorem Keeps.sameDisplay (h : Keeps t k k') (hc : k.curr_term = t) (hc' : k'.curr_term = t) :
    SameDisplay k k' := by
  unfold Keeps at h
  rw [hc, hc', screenOf_self, screenOf_self, lineOf_self, lineOf_self] at h
  obtain ⟨hscreen, hline⟩ := h
  obtain ⟨hlen, hbuf⟩ := cells_eq hline
  refine ⟨fun i hi => ?_, congrArg Screen.location hscreen, hlen, hbuf⟩
  exact congrFun (congrArg Screen.cell hscreen) ⟨i, hi⟩

/-- The same while it is hidden. -/
theorem Keeps.sameSaved (h : Keeps t k k') (hs : Placed k.console) (hs' : Placed k'.console)
    (hc : t ≠ k.curr_term) (hc' : t ≠ k'.curr_term) : SameSaved t k k' := by
  unfold Keeps at h
  rw [screenOf_of_ne hc, screenOf_of_ne hc', lineOf_of_ne hc, lineOf_of_ne hc'] at h
  obtain ⟨hscreen, hline⟩ := h
  obtain ⟨hlen, hbuf⟩ := cells_eq hline
  have hbase : (k'.console.term t).vid_backup = (k.console.term t).vid_backup := by
    rw [hs t, hs' t]
  refine ⟨hbase, fun i hi => ?_, congrArg Screen.location hscreen, hlen, hbuf⟩
  have hcell := congrFun (congrArg Screen.cell hscreen) ⟨i, hi⟩
  unfold Console.backup screenAt at hcell
  rw [hbase] at hcell
  exact hcell

end

/-- What every run keeps: terminal `a`, and each terminal nothing has happened on. -/
structure Undisturbed (a : TermId) (p : Kernel × Since) : Prop where
  displayed : p.2.start.curr_term = a
  start_placed : Placed p.2.start.console
  placed : Placed p.1.console
  own : Keeps a p.2.start p.1
  hidden : ∀ t, t ≠ a → p.2.touched t = false → t ≠ p.1.curr_term
  others : ∀ t, t ≠ a → p.2.touched t = false → Keeps t p.2.start p.1

/-- A terminal that is hidden and not touched by an event either stays hidden, and the event
happens away from it. -/
theorem Since.note_untouched {m : Machine} {k k' : Kernel} {h : Since} {e : DisplayEvent}
    {t : TermId} (hs : displayStep m k e = some k') (ht : (h.note k e).touched t = false)
    (hc : h.touched t = false → t ≠ k.curr_term) :
    h.touched t = false ∧ AwayFrom t k e ∧ t ≠ k'.curr_term := by
  -- an update that leaves `t` untouched is at another terminal
  have hother : ∀ u, Function.update h.touched u true t = false → t ≠ u ∧ h.touched t = false := by
    intro u hu
    by_cases htu : t = u
    · rw [htu, Function.update_self] at hu
      cases hu
    · rw [Function.update_of_ne htu] at hu
      exact ⟨htu, hu⟩
  cases e with
  | launch u fr frShell =>
    obtain ⟨htu, hfalse⟩ := hother u ht
    refine ⟨hfalse, trivial, ?_⟩
    rcases displayStep_launch hs with ⟨-, hcurr⟩ | ⟨-, -, hcurr⟩
    · rw [hcurr]
      exact hc hfalse
    · rw [hcurr]
      exact htu
  | tick fr =>
    rw [(pit_interrupt_handler_console hs).2]
    exact ⟨ht, trivial, hc ht⟩
  | key scode =>
    obtain ⟨s, i, -, rfl⟩ := displayStep_key hs
    exact ⟨ht, (hc ht).symm, hc ht⟩
  | write buf nbytes =>
    obtain ⟨htu, hfalse⟩ := hother k.running_term ht
    obtain rfl : (terminal_write buf nbytes k).1 = k' := Option.some.inj hs
    exact ⟨hfalse, htu.symm, hc hfalse⟩
  | read nbytes =>
    unfold displayStep at hs
    rw [Option.map_eq_some_iff] at hs
    obtain ⟨⟨k₁, r⟩, hread, rfl⟩ := hs
    rw [(terminal_read_console hread).1]
    exact ⟨ht, (hc ht).symm, hc ht⟩

theorem Undisturbed.step {m : Machine} {a : TermId} {p p' : Kernel × Since} {e : DisplayEvent}
    (h : Undisturbed a p) (hok : Elsewhere a p e) (hs : (leaving m a).step p e = some p') :
    Undisturbed a p' := by
  obtain ⟨hb, haway⟩ := hok
  obtain ⟨hstep, hnote⟩ := System.withHistory_step_iff.mp hs
  obtain ⟨hplaced, hkeeps⟩ := displayStep_keeps h.placed hb haway hstep
  have hstart : p'.2.start = p.2.start := by
    rw [hnote]
    cases e <;> rfl
  have huntouched : ∀ t, t ≠ a → p'.2.touched t = false →
      p.2.touched t = false ∧ AwayFrom t p.1 e ∧ t ≠ p'.1.curr_term := by
    intro t ht hfalse
    rw [hnote] at hfalse
    exact Since.note_untouched hstep hfalse (h.hidden t ht)
  constructor
  · rw [hstart]
    exact h.displayed
  · rw [hstart]
    exact h.start_placed
  · exact hplaced
  · rw [hstart]
    exact h.own.trans hkeeps
  · intro t ht hfalse
    exact (huntouched t ht hfalse).2.2
  · intro t ht hfalse
    obtain ⟨hfalse', haway', -⟩ := huntouched t ht hfalse
    rw [hstart]
    exact (h.others t ht hfalse').trans (displayStep_keeps h.placed hb haway' hstep).2

theorem undisturbed_of_run {m : Machine} {a : TermId} {p : Kernel × Since}
    (h : (leaving m a).ReachableWhere (Elsewhere a) p) : Undisturbed a p := by
  refine h.invariant (fun p h0 => ?_) fun _ _ _ _ hp hok hs => hp.step hok hs
  obtain ⟨hplaced, hcurr, hstart, htouched⟩ := h0
  constructor
  · rw [hstart]
    exact hcurr
  · rw [hstart]
    exact hplaced
  · exact hplaced
  · rw [hstart]
    exact Keeps.refl a p.1
  · intro t ht _
    rw [hcurr]
    exact ht
  · intro t _ _
    rw [hstart]
    exact Keeps.refl t p.1

/-- A terminal displayed again shows what it showed when it was left, with the same line
being typed, and a terminal that was neither displayed nor written on has kept what was
saved for it. -/
theorem round_trip {m : Machine} {a : TermId} {k : Kernel} {h : Since}
    (hrun : (leaving m a).ReachableWhere (Elsewhere a) (k, h)) (hback : k.curr_term = a) :
    SameDisplay h.start k ∧
      ∀ t, t ≠ a → h.touched t = false → SameSaved t h.start k := by
  have hsafe := undisturbed_of_run hrun
  refine ⟨hsafe.own.sameDisplay hsafe.displayed hback, fun t ht hfalse => ?_⟩
  apply (hsafe.others t ht hfalse).sameSaved hsafe.start_placed hsafe.placed
  · rw [hsafe.displayed]
    exact ht
  · exact hsafe.hidden t ht hfalse

instance (k : Kernel) : Decidable (InBounds k) :=
  decidable_of_iff
    ((∀ t, (lineOf k.curr_term t k.console).length < KEYBOARD_BUFFER_SIZE) ∧
      (∀ t, 0 ≤ (screenOf k.curr_term t k.console).location) ∧
      ∀ t, (screenOf k.curr_term t k.console).location < 4000)
    ⟨fun h => ⟨h.1, h.2.1, h.2.2⟩, fun h => ⟨h.line, h.cursor_nonneg, h.cursor_lt⟩⟩

instance (a : TermId) (p : Kernel × Since) (e : DisplayEvent) : Decidable (Elsewhere a p e) := by
  unfold Elsewhere AwayFrom
  cases e <;> infer_instance

/-- Shells on terminals 0 and 1, the second displayed and running. -/
def twoTerminals : Kernel :=
  (sampleRun [.launch_term 1 sampleFrame sampleFrame]).getD sampleKernel

theorem twoTerminals_placed : Placed twoTerminals.console := by
  unfold Placed
  decide +kernel

/-- A letter is typed on terminal 0 while terminal 1 is away. -/
theorem round_trip_letter : ∃ k h, (leaving sampleMachine 1).ReachableWhere (Elsewhere 1) (k, h) ∧
    k.curr_term = 1 ∧ (k.console.saved 0).length = 1 ∧ SameDisplay h.start k := by
  have hrun : (((leaving sampleMachine 1).restrict (Elsewhere 1)).runFrom
      (twoTerminals, { start := twoTerminals, touched := fun _ => false })
      [.launch 0 sampleFrame sampleFrame, .key 0x1E, .launch 1 sampleFrame sampleFrame]).any
      (fun p => decide (p.1.curr_term = 1 ∧ (p.1.console.saved 0).length = 1)) = true := by
    decide +kernel
  have hinit : (leaving sampleMachine 1).init
      (twoTerminals, { start := twoTerminals, touched := fun _ => false }) :=
    ⟨twoTerminals_placed, by decide +kernel, rfl, rfl⟩
  obtain ⟨⟨k, h⟩, hreach, hcurr, hletter⟩ := System.ReachableWhere.exists_of_run hinit _ hrun
  exact ⟨k, h, hreach, hcurr, hletter, (round_trip hreach hcurr).1⟩

/-! ## Output, displayed or not -/

/-- The screen of a terminal at the start of a run, and what its processes have written
since. -/
structure Output where
  start : Screen
  written : List UInt8

/-- Note what the running process writes, if it is one of terminal `t`. -/
def Output.note (t : TermId) (k : Kernel) (e : DisplayEvent) (o : Output) : Output :=
  match e with
  | .write buf nbytes =>
    if k.running_term = t then { o with written := o.written ++ bytesOf buf nbytes } else o
  | _ => o

/-- Runs that start with the cursor of terminal `t` on its screen. -/
def outputs (m : Machine) (t : TermId) : System (Kernel × Output) DisplayEvent :=
  (display m).withHistory (fun k o => o.start = screenOf k.curr_term t k.console ∧
    0 ≤ o.start.location ∧ o.start.location < 4000 ∧ o.written = []) (Output.note t)

/-- Terminal switches, ticks, and output of the processes of terminal `t`. -/
def OutputOf (t : TermId) (p : Kernel × Output) : DisplayEvent → Prop
  | .launch _ _ _ => True
  | .tick _ => True
  | .write _ _ => p.1.running_term = t
  | .key _ => False
  | .read _ => False

/-- The two character routines agree on what is written while terminal `t` is hidden. -/
def HiddenAgrees (t : TermId) (p : Kernel × Output) : DisplayEvent → Prop
  | .write buf nbytes => t ≠ p.1.curr_term →
      AgreesAll (attrib t) (bytesOf buf nbytes) (p.1.console.backup t)
  | _ => True

/-- The terminal shows what has been written. -/
structure Shows (t : TermId) (p : Kernel × Output) : Prop where
  placed : Placed p.1.console
  near : p.2.start.Near
  screen : screenOf p.1.curr_term t p.1.console = p.2.start.emitAll (attrib t) p.2.written

theorem Screen.emitAll_append (attr : UInt8) (a b : List UInt8) (v : Screen) :
    v.emitAll attr (a ++ b) = (v.emitAll attr a).emitAll attr b :=
  List.foldl_append ..

theorem Shows.step {m : Machine} {t : TermId} {p p' : Kernel × Output} {e : DisplayEvent}
    (h : Shows t p) (hof : OutputOf t p e) (hagrees : HiddenAgrees t p e)
    (hs : (outputs m t).step p e = some p') : Shows t p' := by
  obtain ⟨hstep, hnote⟩ := System.withHistory_step_iff.mp hs
  have hstep' : displayStep m p.1 e = some p'.1 := hstep
  cases e with
  | launch u fr frShell =>
    have hout : p'.2 = p.2 := hnote
    rcases displayStep_launch hstep' with ⟨hc, ht⟩ | ⟨hne, hc, ht⟩
    · exact ⟨hc.symm ▸ h.placed, hout.symm ▸ h.near, by rw [hc, ht, hout, h.screen]⟩
    · refine ⟨?_, hout.symm ▸ h.near, ?_⟩
      · rw [hc]
        exact h.placed.of_same (switch_terminal_screens _ _ _)
      · rw [hc, ht, hout, switch_terminal_screenOf h.placed hne, h.screen]
  | tick fr =>
    have hout : p'.2 = p.2 := hnote
    obtain ⟨hc, ht⟩ := pit_interrupt_handler_console hstep'
    exact ⟨hc.symm ▸ h.placed, hout.symm ▸ h.near, by rw [hc, ht, hout, h.screen]⟩
  | write buf nbytes =>
    have hrun : p.1.running_term = t := hof
    obtain ⟨k', o'⟩ := p'
    obtain rfl : o' = { p.2 with written := p.2.written ++ bytesOf buf nbytes } :=
      hnote.trans (if_pos hrun)
    obtain rfl : (terminal_write buf nbytes p.1).1 = k' := Option.some.inj hstep'
    have hnear : (screenOf p.1.curr_term t p.1.console).Near :=
      h.screen ▸ Screen.emitAll_near p.2.written h.near
    by_cases hcurr : t = p.1.curr_term
    · -- `putc`
      rw [terminal_write_shown buf nbytes (hrun.trans hcurr)]
      have hscreen := h.screen
      rw [hcurr, screenOf_self] at hnear hscreen
      refine ⟨(foldl_putc_liveOnly _ hnear).placed h.placed, h.near, ?_⟩
      rw [Screen.emitAll_append, hcurr, screenOf_self, foldl_putc_screen, hscreen]
    · -- `putc_term`
      rw [terminal_write_hidden buf nbytes (hrun.symm ▸ hcurr), hrun]
      have hscreen := h.screen
      rw [screenOf_of_ne hcurr] at hnear hscreen
      obtain ⟨hprinted, hdraws⟩ := foldl_putc_term_backup (bytesOf buf nbytes)
        (h.placed.base_lt t) hnear (hagrees hcurr)
      refine ⟨hdraws.placed h.placed, h.near, ?_⟩
      rw [Screen.emitAll_append, screenOf_of_ne hcurr, hprinted, hscreen]
  | key scode => exact hof.elim
  | read nbytes => exact hof.elim

/-- `putc_term` does what `putc` does but for a Tab in columns 21 to 75 of the first row, and
in every run in which the two agree on what is written while terminal `t` is hidden, the
terminal shows what it would show had it been displayed throughout. -/
theorem output_independent (m : Machine) (t : TermId) :
    (∀ (c : UInt8) (s s₀ : Console), Placed s →
      0 ≤ (s.term t).cursor_location → (s.term t).cursor_location < 4000 →
      s₀.screen = s.backup t →
      ((putc_term c t s).backup t = (putc t c s₀).screen ↔
        ¬ (c = 0x09 ∧ 42 ≤ (s.term t).cursor_location ∧ (s.term t).cursor_location < 152))) ∧
    ∀ p : Kernel × Output,
      (outputs m t).ReachableWhere (fun p e => OutputOf t p e ∧ HiddenAgrees t p e) p →
      ∀ s₀ : Console, s₀.screen = p.2.start →
        screenOf p.1.curr_term t p.1.console =
          (p.2.written.foldl (fun s c => putc t c s) s₀).screen := by
  constructor
  · intro c s s₀ hs h0 hhi hscreen
    rw [putc_screen, hscreen]
    exact putc_term_backup_iff h0 hhi (hs.base_lt t)
  · intro p hrun s₀ hscreen
    have hsafe : Shows t p := by
      refine hrun.invariant (fun p h0 => ?_) fun p e p' _ hp hok hs => hp.step hok.1 hok.2 hs
      obtain ⟨hplaced, hstart, hnonneg, hlt, hwritten⟩ := h0
      refine ⟨hplaced, ⟨lt_of_lt_of_le (by decide) hnonneg, hlt⟩, ?_⟩
      rw [hwritten, hstart]
      rfl
    rw [hsafe.screen, foldl_putc_screen, hscreen]

instance (t : TermId) (p : Kernel × Output) (e : DisplayEvent) :
    Decidable (OutputOf t p e ∧ HiddenAgrees t p e) := by
  unfold OutputOf HiddenAgrees
  cases e <;> infer_instance

instance (t : TermId) (p : Kernel × Output) (e : DisplayEvent) : Decidable (OutputOf t p e) := by
  unfold OutputOf
  cases e <;> infer_instance

/-- The run of `outputs` from two terminals, for terminal 1. -/
def sampleOutput : Kernel × Output :=
  (twoTerminals, { start := twoTerminals.console.screen, written := [] })

theorem sampleOutput_init : (outputs sampleMachine 1).init sampleOutput := by
  have hcurr : twoTerminals.curr_term = 1 := by decide +kernel
  have hstart : sampleOutput.2.start = screenOf twoTerminals.curr_term 1 twoTerminals.console := by
    rw [hcurr, screenOf_self]
    rfl
  exact ⟨twoTerminals_placed, hstart, by decide +kernel, by decide +kernel, rfl⟩

/-- The history keeps the screen it started with. -/
theorem outputs_start {m : Machine} {t : TermId} {p p' : Kernel × Output} {e : DisplayEvent}
    (h : (outputs m t).step p e = some p') : p'.2.start = p.2.start := by
  rw [(System.withHistory_step_iff.mp h).2]
  unfold Output.note
  cases e with
  | write buf nbytes =>
    dsimp only
    split_ifs <;> rfl
  | launch u fr frShell => rfl
  | tick fr => rfl
  | key scode => rfl
  | read nbytes => rfl

/-- Terminal 1 writes a letter on display, and another one while it is hidden. -/
theorem output_independent_letters : ∃ p, (outputs sampleMachine 1).ReachableWhere
      (fun p e => OutputOf 1 p e ∧ HiddenAgrees 1 p e) p ∧
    p.2.written = [97, 98] ∧ p.1.curr_term = 0 ∧
    screenOf p.1.curr_term 1 p.1.console =
      (p.2.written.foldl (fun s c => putc 1 c s) twoTerminals.console).screen := by
  have hrun : (((outputs sampleMachine 1).restrict
      (fun p e => OutputOf 1 p e ∧ HiddenAgrees 1 p e)).runFrom sampleOutput
      [.write (fun _ => 97) 1, .launch 0 sampleFrame sampleFrame, .write (fun _ => 98) 1]).any
      (fun p => decide (p.2.written = [97, 98] ∧ p.1.curr_term = 0)) = true := by
    decide +kernel
  rw [Option.any_eq_true] at hrun
  obtain ⟨p, hrun, hcheck⟩ := hrun
  rw [decide_eq_true_eq] at hcheck
  have hstart : p.2.start = twoTerminals.console.screen := by
    refine System.runFrom_invariant (P := fun p => p.2.start = twoTerminals.console.screen)
      (fun p e p' hp hs => ?_) rfl _ hrun
    exact (outputs_start (System.restrict_step hs).2).trans hp
  have hreach := System.ReachableWhere.of_runFrom sampleOutput_init _ hrun
  exact ⟨p, hreach, hcheck.1, hcheck.2, (output_independent sampleMachine 1).2 p hreach
    twoTerminals.console hstart.symm⟩

/-- Terminal 1 writes 21 spaces on display, then a Tab while it is hidden. The cursor ends in
row 20; displayed, it ends above the screen. -/
theorem output_not_independent : ¬ ∀ p, (outputs sampleMachine 1).ReachableWhere (OutputOf 1) p →
    ∀ s₀ : Console, s₀.screen = p.2.start →
      screenOf p.1.curr_term 1 p.1.console =
        (p.2.written.foldl (fun s c => putc 1 c s) s₀).screen := by
  intro hall
  have hrun : (((outputs sampleMachine 1).restrict (OutputOf 1)).runFrom sampleOutput
      [.write (fun _ => 0x20) 21, .launch 0 sampleFrame sampleFrame,
        .write (fun _ => 0x09) 1]).any
      (fun p => decide ((screenOf p.1.curr_term 1 p.1.console).location = 3250 ∧
        (p.2.written.foldl (fun s c => putc 1 c s) twoTerminals.console).screen.location =
          -110)) = true := by
    decide +kernel
  rw [Option.any_eq_true] at hrun
  obtain ⟨p, hrun, hcheck⟩ := hrun
  rw [decide_eq_true_eq] at hcheck
  have hstart : p.2.start = twoTerminals.console.screen := by
    refine System.runFrom_invariant (P := fun p => p.2.start = twoTerminals.console.screen)
      (fun p e p' hp hs => ?_) rfl _ hrun
    exact (outputs_start (System.restrict_step hs).2).trans hp
  have hreach := System.ReachableWhere.of_runFrom sampleOutput_init _ hrun
  have hsame := hall p hreach twoTerminals.console hstart.symm
  have hloc := congrArg Screen.location hsame
  rw [hcheck.1, hcheck.2] at hloc
  exact absurd hloc (by decide)

end Kernel391
