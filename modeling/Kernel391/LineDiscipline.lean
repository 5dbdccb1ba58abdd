import Kernel391.LineInput
import Kernel391.ProcessTheorems
import Kernel391.Lib.Stream

/-!
# Lines come whole

What should become of the characters typed on a terminal: they wait until they are read, a
read takes what fits of the first committed line and leaves the rest. `Discipline` keeps this
account beside the steps of `LineInput`, with one terminal and its process.

`terminal_read` resets `has_enter` without a look at the line, and empties the whole buffer
at its end. The account comes out right as long as the line it finds is the only one, fits
the caller's buffer and does not change before it is cleared (`WholeLines`).
-/

namespace Kernel391

open TransitionSystem Stream

/-! ## What a key does to the text -/

def newline (c : UInt8) : Bool := c = 0x0a

/-- The characters of the line being typed. -/
def Console.text (s : Console) : List UInt8 := s.live.map KeyCell.c

@[simp] theorem length_text (s : Console) : s.text.length = s.length_key := by
  rw [Console.text, List.length_map, length_live]

/-- What a pressed key is meant to do to the text typed so far: Backspace takes the last
character back, Ctrl+L everything, and other keys append their character unless the buffer
does not take it. -/
def typed (scode : ℕ) (s : Console) (text : List UInt8) : List UInt8 :=
  if scode = BACKSPACE then
    if s.current_location = 0 ∨ s.length_key = 0 then text else text.dropLast
  else if scode = TAB then
    if s.length_key = KEYBOARD_BUFFER_SIZE then text else text ++ [0x09]
  else if scode = ENTER then
    if s.length_key = KEYBOARD_BUFFER_SIZE then text else text ++ [0x0a]
  else if scode = LETTER_L ∧ s.ctrl_pressed = true then []
  else if IsCharacter scode s then
    if s.length_key = KEYBOARD_BUFFER_SIZE - 1 then text
    else text ++ [scancode_map s.key_mode scode]
  else text

/-- The characters of the table start no new row. -/
theorem scancode_map_not_break (mode scode : ℕ) :
    ¬ (scancode_map mode scode = 0x0a ∨ scancode_map mode scode = 0x0d) := by
  have hrows : ∀ row ∈ scancodeRows, ∀ c ∈ row, ¬ (c = 0x0a ∨ c = 0x0d) := by decide +kernel
  exact scancode_map_forall hrows (by decide) mode scode

/-- A newline comes from Enter only. -/
theorem scancode_map_newline (mode scode : ℕ) : newline (scancode_map mode scode) = false :=
  decide_eq_false (not_or.mp (scancode_map_not_break mode scode)).1

theorem SameLines.text {s s' : Console} (h : SameLines s s') : s'.text = s.text := by
  rw [Console.text, h.live, ← Console.text]

theorem append_key_text (t : TermId) (c : UInt8) (s : Console) :
    (append_key t c s).text = s.text ++ [c] := by
  rw [Console.text, append_key_live (SameLines.refl s), List.map_append, ← Console.text]
  rfl

theorem tabColumn_term (s : Console) : (tabColumn s).term = s.term := by
  unfold tabColumn
  dsimp only
  split_ifs <;> rfl

theorem handle_tab_term (s : Console) : (handle_tab s).term = s.term := by
  unfold handle_tab
  split_ifs
  · rfl
  · rw [tabColumn_term, tabColumn_term, tabColumn_term, tabColumn_term]

theorem echo_term (t : TermId) (c : UInt8) (s : Console) : (echo t c s).term = s.term := by
  unfold echo
  dsimp only
  split_ifs
  · exact putc_term_eq t c s
  · exact putc_term_eq t c s
  · exact putc_term_eq t c (handle_scroll s)

theorem handle_enter_flag {t : TermId} {s : Console} (h : s.length_key ≠ KEYBOARD_BUFFER_SIZE) :
    ((handle_enter t s).term t).has_enter = true := by
  unfold handle_enter
  dsimp only
  rw [if_neg h]
  simp only [Console.modTerm, Function.update_self]

theorem process_char_text {t : TermId} {scode i : ℕ} {s s' : Console}
    (hlen : s.length_key ≤ KEYBOARD_BUFFER_SIZE) (h : process_char t scode s = some (s', i)) :
    s'.text = typed scode s s.text := by
  rcases process_char_ends h with ⟨rfl, hback⟩ | ⟨rfl, hfull, rfl⟩ | ⟨rfl, hfull, rfl⟩ |
    ⟨⟨rfl, hctrl⟩, rfl⟩ | ⟨hchar, rfl⟩ | ⟨hrefused, mode, cap, ctrl, alt, rfl⟩
  · rw [Console.text, handle_backspace_live hlen hback, typed, if_pos rfl]
    split_ifs
    · rfl
    · rw [List.map_dropLast, ← Console.text]
  · rw [append_key_text, (handle_tab_lines s).text, typed, if_neg (by decide), if_pos rfl,
      if_neg hfull]
  · rw [append_key_text, (handle_enter_lines t s).text, typed, if_neg (by decide),
      if_neg (by decide), if_pos rfl, if_neg hfull]
  · rw [typed, if_neg (by decide), if_neg (by decide), if_neg (by decide), if_pos ⟨rfl, hctrl⟩]
    rfl
  · obtain ⟨hkeys, hl, -⟩ := id hchar
    simp only [List.mem_cons, List.not_mem_nil, or_false, not_or] at hkeys
    rw [typed, if_neg hkeys.1, if_neg hkeys.2.1, if_neg hkeys.2.2.2.2.2.2.2.2.2.2, if_neg hl,
      if_pos hchar]
    unfold process_key
    dsimp only
    split_ifs
    · rfl
    · rw [(echo_lines t _ _).text, append_key_text]
  · have hsame : (setModes mode cap ctrl alt s).text = s.text := rfl
    rw [hsame, typed]
    rcases hrefused with hno | ⟨htab, hfull⟩
    · unfold EditsLine at hno
      simp only [not_or] at hno
      rw [if_neg hno.1, if_neg hno.2.1, if_neg hno.2.2.1, if_neg hno.2.2.2.1, if_neg hno.2.2.2.2]
    · rcases htab with rfl | rfl
      · rw [if_neg (by decide), if_pos rfl, if_pos hfull]
      · rw [if_neg (by decide), if_neg (by decide), if_pos rfl, if_pos hfull]

/-- A line that becomes committed sets the flag, and no key resets it. -/
theorem process_char_flag {t : TermId} {scode i : ℕ} {s s' : Console}
    (hlen : s.length_key ≤ KEYBOARD_BUFFER_SIZE) (h : process_char t scode s = some (s', i))
    (hc : Committed newline s'.text) : (s'.term t).has_enter = true ∨
      Committed newline s.text ∧ (s'.term t).has_enter = (s.term t).has_enter := by
  rcases process_char_ends h with ⟨-, hback⟩ | ⟨-, -, rfl⟩ | ⟨-, hfull, rfl⟩ | ⟨-, rfl⟩ |
    ⟨-, rfl⟩ | ⟨-, mode, cap, ctrl, alt, rfl⟩
  · rw [handle_backspace_term hback]
    rw [Console.text, handle_backspace_live hlen hback] at hc
    split_ifs at hc
    · exact Or.inr ⟨hc, rfl⟩
    · rw [List.map_dropLast] at hc
      exact Or.inr ⟨hc.of_dropLast, rfl⟩
  · rw [append_key_text, (handle_tab_lines s).text] at hc
    exact Or.inr ⟨hc.of_concat (by decide),
      congrArg (fun f => (f t).has_enter) (handle_tab_term s)⟩
  · exact Or.inl (handle_enter_flag hfull)
  · exact absurd rfl hc.ne_nil
  · unfold process_key at hc ⊢
    dsimp only at hc ⊢
    split_ifs at hc ⊢
    · exact Or.inr ⟨hc, rfl⟩
    · rw [(echo_lines t _ _).text, append_key_text] at hc
      rw [echo_term]
      exact Or.inr ⟨hc.of_concat (scancode_map_newline _ _), rfl⟩
  · exact Or.inr ⟨hc, rfl⟩

/-! ## The account -/

/-- A finished call: what it asked for, the text that was pending, and what it got. -/
structure LineResult where
  nbytes : ℤ
  pending : List UInt8
  got : List (Option UInt8)

/-- What it should have got: the first line, as far as it fits. -/
def LineResult.next (r : LineResult) : List UInt8 :=
  (firstLine newline r.pending).take r.nbytes.toNat

/-- There was a committed line, and the call got its next part. -/
structure LineResult.Right (r : LineResult) : Prop where
  committed : Committed newline r.pending
  nonempty : r.next ≠ []
  got_eq : r.got = r.next.map some

structure Discipline where
  /-- The characters accepted, and neither erased nor read yet. -/
  pending : List UInt8
  /-- The line in the buffer when the call under way reset `has_enter`. -/
  found : List UInt8
  /-- What this call asked for. -/
  nbytes : ℤ
  results : List LineResult

/-- Note the return of a call. What it should have got is no longer pending. -/
def Discipline.finish (d : Discipline) (i : ℕ) (buf : ℕ → Option KeyCell) : Discipline :=
  let r : LineResult :=
    { nbytes := d.nbytes, pending := d.pending
      got := (List.range i).map fun j => (buf j).map KeyCell.c }
  { d with pending := d.pending.drop r.next.length, results := r :: d.results }

def Discipline.noteRead (s : Console) (d : Discipline) : Reader → Discipline
  | .entered _ => { d with found := s.text }
  | .clearing i buf => d.finish i buf
  | _ => d

def Discipline.note (s : InputState) (e : InputEvent) (d : Discipline) : Discipline :=
  match e with
  | .key c =>
    if c ≠ 0 ∧ c < KEY_COUNT then { d with pending := typed c s.console d.pending } else d
  | .read nbytes => { d with nbytes := nbytes }
  | .readStep => d.noteRead s.console (s.reader s.running_term)
  | _ => d

/-- Terminal `t` on display with the only process, which is not in a call. A line may have
been typed. -/
def typing (t : TermId) : System InputState InputEvent where
  init s := s.curr_term = t ∧ s.running_term = t ∧ (∀ u, s.has_process u = true → u = t) ∧
    s.switching = [] ∧ s.reader t = .idle ∧ s.console.length_key ≤ KEYBOARD_BUFFER_SIZE ∧
    (Committed newline s.console.text → (s.console.term t).has_enter = true)
  step := InputState.step

/-- With the account. -/
def oneTerminal (t : TermId) : System (InputState × Discipline) InputEvent :=
  (typing t).withHistory (fun s d => d.pending = s.console.text ∧ d.results = [])
    Discipline.note

/-- What a call needs to find: one whole line that fits when it resets `has_enter`, and the
same line from then on. -/
def FindsLine (text found : List UInt8) : Reader → Prop
  | .idle => True
  | .waiting _ => True
  | .entered n => IsLine newline text ∧ (text.length : ℤ) ≤ n
  | _ => text = found

/-- The steps that keep lines whole. A character key behind a full buffer is left out. -/
def WholeLines (p : InputState × Discipline) : InputEvent → Prop
  | .key c => c ≠ 0 → c < KEY_COUNT → IsCharacter c p.1.console →
      p.1.console.length_key ≠ KEYBOARD_BUFFER_SIZE
  | .readStep => FindsLine p.1.console.text p.2.found (p.1.reader p.1.running_term)
  | _ => True

/-! ## The invariant -/

/-- The first `i` bytes copied are those of the line. -/
def Copied (found : List UInt8) (buf : ℕ → Option KeyCell) (i : ℕ) : Prop :=
  ∀ j < i, j < found.length → (buf j).map KeyCell.c = found[j]?

/-- How far a call for `nbytes` has got with the line it found. -/
def CopyOk (found : List UInt8) (nbytes : ℤ) : Reader → Prop
  | .idle => True
  | .waiting n => n = nbytes ∧ n < 2 ^ 31
  | .entered n => n = nbytes ∧ n < 2 ^ 31
  | .copying n i buf => (IsLine newline found ∧ (found.length : ℤ) ≤ nbytes) ∧
    n = nbytes ∧ n < 2 ^ 31 ∧ (i : ℤ) ≤ n ∧ Copied found buf i
  | .loading n i buf => (IsLine newline found ∧ (found.length : ℤ) ≤ nbytes) ∧
    n = nbytes ∧ n < 2 ^ 31 ∧ (i : ℤ) < n ∧ i < found.length ∧ Copied found buf i
  | .counting n i buf => (IsLine newline found ∧ (found.length : ℤ) ≤ nbytes) ∧
    n = nbytes ∧ n < 2 ^ 31 ∧ (i : ℤ) = n ∧ Copied found buf i
  | .adjusting buf => (IsLine newline found ∧ (found.length : ℤ) ≤ nbytes) ∧
    Copied found buf found.length
  | .clearing i buf => (IsLine newline found ∧ (found.length : ℤ) ≤ nbytes) ∧
    i = found.length ∧ Copied found buf found.length

structure DisciplineOk (t : TermId) (s : InputState) (d : Discipline) : Prop where
  curr_term : s.curr_term = t
  running_term : s.running_term = t
  alone : ∀ u, s.has_process u = true → u = t
  switching : s.switching = []
  length_le : s.console.length_key ≤ KEYBOARD_BUFFER_SIZE
  pending : s.console.text = d.pending
  /-- A committed line that is not being read has its flag. -/
  flag : Committed newline d.pending →
    (s.console.term t).has_enter = true ∨ (s.reader t).Copying
  reader : CopyOk d.found d.nbytes (s.reader t)
  results : ∀ r ∈ d.results, r.Right

/-- A call that gets the whole of the only line is right, and nothing else was pending. -/
theorem LineResult.right_of_line {r : LineResult} (hline : IsLine newline r.pending)
    (hfits : (r.pending.length : ℤ) ≤ r.nbytes) (hgot : r.got = r.pending.map some) :
    r.Right ∧ r.next = r.pending := by
  have hnext : r.next = r.pending := by
    unfold LineResult.next
    rw [hline.2]
    apply List.take_of_length_le
    omega
  refine ⟨⟨hline.1, ?_, ?_⟩, hnext⟩
  · rw [hnext]
    exact hline.1.ne_nil
  · rw [hnext, hgot]

theorem Copied.got_eq {found : List UInt8} {buf : ℕ → Option KeyCell}
    (h : Copied found buf found.length) :
    ((List.range found.length).map fun j => (buf j).map KeyCell.c) = found.map some := by
  apply List.ext_getElem
  · simp only [List.length_map, List.length_range]
  · intro j hj _
    rw [List.length_map, List.length_range] at hj
    rw [List.getElem_map, List.getElem_map, List.getElem_range, h j hj hj,
      List.getElem?_eq_getElem hj]

theorem Copied.mono {found : List UInt8} {buf : ℕ → Option KeyCell} {i i' : ℕ}
    (h : Copied found buf i) (hi : i' ≤ i ∨ found.length ≤ i) : Copied found buf i' := by
  intro j hj hlt
  exact h j (by omega) hlt

/-- The next byte is copied from the line. -/
theorem Copied.load {found : List UInt8} {buf : ℕ → Option KeyCell} {i : ℕ} {c : KeyCell}
    (h : Copied found buf i) (hc : some c.c = found[i]?) :
    Copied found (Function.update buf i (some c)) (i + 1) := by
  intro j hj hlt
  by_cases hji : j = i
  · rw [hji, Function.update_self]
    exact hc
  · rw [Function.update_of_ne hji]
    exact h j (by omega) hlt

theorem text_getElem? {s : Console} {i : ℕ} (h : i < s.length_key) :
    some (s.keyboard_buffer i).c = s.text[i]? := by
  unfold Console.text Console.live cells
  rw [List.getElem?_map, List.getElem?_map, List.getElem?_range h]
  rfl

namespace DisciplineOk

variable {t : TermId} {s s' : InputState} {d : Discipline}

theorem setReader (h : DisciplineOk t s d) {r : Reader} (hr : CopyOk d.found d.nbytes r)
    (hcopy : r.Copying ∨ ¬ (s.reader t).Copying) : DisciplineOk t (s.setReader r) d := by
  have hreader : (s.setReader r).reader t = r := by
    unfold InputState.setReader
    rw [h.running_term]
    exact Function.update_self ..
  refine ⟨h.curr_term, h.running_term, h.alone, h.switching, h.length_le, h.pending, ?_, ?_,
    h.results⟩
  · intro hc
    rw [hreader]
    rcases hcopy with hcopy | hcopy
    · exact Or.inr hcopy
    · exact Or.inl ((h.flag hc).resolve_right hcopy)
  · rw [hreader]
    exact hr

/-- A key. -/
theorem key (h : DisciplineOk t s d) {c : ℕ} (hok : WholeLines (s, d) (.key c)) {console : Console}
    {action : KeyAction}
    (hkey : keyboard_interrupt_handler s.curr_term c s.console = some (console, action)) :
    DisciplineOk t { s with console := console } (Discipline.note s (.key c) d) := by
  -- a key that is not processed
  have hsame : ∀ console : Console, console.text = s.console.text →
      console.length_key = s.console.length_key → console.term = s.console.term →
      DisciplineOk t { s with console := console } d := by
    intro console htext hlength hterm
    refine ⟨h.curr_term, h.running_term, h.alone, h.switching, ?_, ?_, ?_, h.reader, h.results⟩
    · exact hlength.symm ▸ h.length_le
    · exact htext.trans h.pending
    · intro hc
      show (console.term t).has_enter = true ∨ _
      rw [hterm]
      exact h.flag hc
  unfold keyboard_interrupt_handler at hkey
  unfold Discipline.note
  dsimp only
  by_cases h0 : c = 0
  · rw [if_pos h0, Option.some.injEq, Prod.mk.injEq] at hkey
    rw [if_neg (fun hc => hc.1 h0), ← hkey.1]
    exact h
  rw [if_neg h0] at hkey
  by_cases hup : c ≥ KEY_COUNT
  · rw [if_neg (fun hc => Nat.not_lt.mpr hup hc.2)]
    rw [if_pos hup] at hkey
    split_ifs at hkey <;>
    · rw [Option.some.injEq, Prod.mk.injEq] at hkey
      exact hkey.1 ▸ hsame _ rfl rfl rfl
  · have hlt := Nat.lt_of_not_le hup
    rw [if_neg hup, Option.bind_eq_bind, Option.bind_eq_some_iff] at hkey
    obtain ⟨⟨s₁, i⟩, hchar, hkey⟩ := hkey
    rw [Option.some.injEq, Prod.mk.injEq] at hkey
    rw [hkey.1, h.curr_term] at hchar
    rw [if_pos ⟨h0, hlt⟩]
    have htext := process_char_text h.length_le hchar
    have hedit := (process_char_effect h.length_le (hok h0 hlt) hchar).live.length_le
      ((length_live s.console).symm ▸ h.length_le)
    rw [length_live] at hedit
    refine ⟨h.curr_term, h.running_term, h.alone, h.switching, hedit, ?_, ?_, h.reader,
      h.results⟩
    · show console.text = typed c s.console d.pending
      rw [htext, h.pending]
    · intro hc
      have hcommitted : Committed newline console.text := by
        rw [htext, h.pending]
        exact hc
      rcases process_char_flag h.length_le hchar hcommitted with hset | ⟨hold, hkept⟩
      · exact Or.inl hset
      · have hflag := h.flag (h.pending ▸ hold)
        exact hflag.imp_left hkept.trans

/-- A call finds its line. -/
theorem enter (h : DisciplineOk t s d) (hn : d.nbytes < 2 ^ 31)
    (hline : IsLine newline s.console.text) (hfits : (s.console.text.length : ℤ) ≤ d.nbytes) :
    DisciplineOk t
      { s.setReader (.copying d.nbytes 0 fun _ => none) with
        console := s.console.modTerm t fun i => { i with has_enter := false } }
      { d with found := s.console.text } := by
  have hlines := has_enter_lines t false s.console
  refine ⟨h.curr_term, h.running_term, h.alone, h.switching, h.length_le, ?_, ?_, ?_, h.results⟩
  · exact hlines.text.trans h.pending
  · intro _
    refine Or.inr ?_
    show (Function.update s.reader s.running_term _ t).Copying
    rw [h.running_term, Function.update_self]
    trivial
  · show CopyOk s.console.text d.nbytes (Function.update s.reader s.running_term _ t)
    rw [h.running_term, Function.update_self]
    exact ⟨⟨hline, hfits⟩, rfl, hn, by omega, fun j hj => absurd hj (Nat.not_lt_zero j)⟩

/-- It returns with the whole of it. -/
theorem finish (h : DisciplineOk t s d) {buf : ℕ → Option KeyCell} {returned : List LineRead}
    (hline : IsLine newline d.found) (hfits : (d.found.length : ℤ) ≤ d.nbytes)
    (hcopied : Copied d.found buf d.found.length) (hfound : s.console.text = d.found) :
    DisciplineOk t
      { s.setReader .idle with
        console := clear_keyboard_buffer s.console
        returned := returned }
      (d.finish d.found.length buf) := by
  have hpending : d.pending = d.found := h.pending.symm.trans hfound
  obtain ⟨hright, hnext⟩ := LineResult.right_of_line
    (r := { nbytes := d.nbytes, pending := d.pending
            got := (List.range d.found.length).map fun j => (buf j).map KeyCell.c })
    (by rw [hpending]; exact hline) (by rw [hpending]; exact hfits)
    (by rw [hpending]; exact hcopied.got_eq)
  have hempty : (d.finish d.found.length buf).pending = [] := by
    show d.pending.drop _ = []
    rw [hnext, List.drop_length]
  refine ⟨h.curr_term, h.running_term, h.alone, h.switching, Nat.zero_le _, ?_, ?_, ?_, ?_⟩
  · exact hempty.symm
  · intro hc
    exact absurd hempty hc.ne_nil
  · show CopyOk d.found d.nbytes (Function.update s.reader s.running_term _ t)
    rw [h.running_term, Function.update_self]
    trivial
  · intro r hr
    rcases List.mem_cons.mp hr with rfl | hr
    · exact hright
    · exact h.results r hr

/-- One piece of `terminal_read`. -/
theorem readStep (h : DisciplineOk t s d)
    (hok : FindsLine s.console.text d.found (s.reader s.running_term))
    (hs : s.readStep = some s') : DisciplineOk t s' (Discipline.note s .readStep d) := by
  have hr := h.reader
  have hlength := length_text s.console
  unfold InputState.readStep at hs
  unfold Discipline.note Discipline.noteRead
  dsimp only
  rw [h.running_term] at hs hok ⊢
  cases hcall : s.reader t with
  | idle =>
    rw [hcall] at hs
    cases hs
  | waiting n =>
    have hquiet : ¬ (s.reader t).Copying := by
      rw [hcall]
      exact id
    rw [hcall] at hs hr
    dsimp only at hs
    split_ifs at hs
    · exact Option.some.inj hs ▸ h.setReader hr (Or.inr hquiet)
    · exact Option.some.inj hs ▸ h
  | entered n =>
    rw [hcall] at hs hr hok
    obtain ⟨rfl, hn⟩ := hr
    exact Option.some.inj hs ▸ h.enter hn hok.1 hok.2
  | copying n i buf =>
    rw [hcall] at hs hr hok
    obtain ⟨hline, rfl, hn, hi, hcopied⟩ := hr
    have hfound : s.console.text = d.found := hok
    rw [hfound] at hlength
    dsimp only at hs
    split_ifs at hs with hlt hkey
    · exact Option.some.inj hs ▸
        h.setReader ⟨hline, rfl, hn, hlt, by omega, hcopied⟩ (Or.inl trivial)
    · -- past the end of the line nothing is copied
      exact Option.some.inj hs ▸ h.setReader
        ⟨hline, rfl, hn, by omega, hcopied.mono (by omega)⟩ (Or.inl trivial)
    · exact Option.some.inj hs ▸
        h.setReader ⟨hline, rfl, hn, by omega, hcopied⟩ (Or.inl trivial)
  | loading n i buf =>
    rw [hcall] at hs hr hok
    obtain ⟨hline, rfl, hn, hi, hin, hcopied⟩ := hr
    have hfound : s.console.text = d.found := hok
    rw [hfound] at hlength
    have hload : some (s.console.keyboard_buffer i).c = d.found[i]? := by
      rw [← hfound]
      exact text_getElem? (by omega)
    exact Option.some.inj hs ▸ h.setReader
      ⟨hline, rfl, hn, by omega, hcopied.load hload⟩ (Or.inl trivial)
  | counting n i buf =>
    rw [hcall] at hs hr hok
    obtain ⟨hline, rfl, hn, hi, hcopied⟩ := hr
    have hfound : s.console.text = d.found := hok
    rw [hfound] at hlength
    have hunsigned := toUnsigned_eq (n := d.nbytes) (by omega) hn
    have hwhole : Copied d.found buf d.found.length := hcopied.mono (by omega)
    dsimp only at hs
    split_ifs at hs with hkey
    · exact Option.some.inj hs ▸ h.setReader ⟨hline, hwhole⟩ (Or.inl trivial)
    · exact Option.some.inj hs ▸ h.setReader ⟨hline, by omega, hwhole⟩ (Or.inl trivial)
  | adjusting buf =>
    rw [hcall] at hs hr hok
    obtain ⟨hline, hcopied⟩ := hr
    have hfound : s.console.text = d.found := hok
    rw [hfound] at hlength
    exact Option.some.inj hs ▸ h.setReader ⟨hline, hlength.symm, hcopied⟩ (Or.inl trivial)
  | clearing i buf =>
    rw [hcall] at hs hr hok
    obtain ⟨⟨hline, hfits⟩, rfl, hcopied⟩ := hr
    have hfound : s.console.text = d.found := hok
    exact Option.some.inj hs ▸ h.finish hline hfits hcopied hfound

/-- Every step that keeps lines whole keeps the account. -/
theorem step (h : DisciplineOk t s d) {e : InputEvent} (hok : WholeLines (s, d) e)
    (hs : s.step e = some s') : DisciplineOk t s' (Discipline.note s e d) := by
  unfold InputState.step at hs
  cases e with
  | key c =>
    dsimp only at hs
    rw [Option.bind_eq_bind, Option.bind_eq_some_iff] at hs
    obtain ⟨⟨console, action⟩, hkey, hs⟩ := hs
    have hpressed := h.key hok hkey
    cases action with
    | done => exact Option.some.inj hs ▸ hpressed
    | halt => cases hs
    | launch u =>
      dsimp only at hs
      split_ifs at hs with hu hnew
      · exact Option.some.inj hs ▸ hpressed
      · exact absurd ((h.alone u hnew).trans h.curr_term.symm) hu
  | switchStep =>
    dsimp only at hs
    have hcur : s.current = none := by
      rw [InputState.current, h.switching]
      rfl
    unfold InputState.switchStep at hs
    rw [hcur] at hs
    cases hs
  | tick next =>
    dsimp only at hs
    split_ifs at hs with hnext
    rw [← Option.some.inj hs]
    exact ⟨h.curr_term, h.alone next hnext, h.alone, h.switching, h.length_le, h.pending, h.flag,
      h.reader, h.results⟩
  | read nbytes =>
    dsimp only at hs
    split_ifs at hs with hfree
    split at hs
    · rename_i hidle
      have hquiet : ¬ (s.reader t).Copying := by
        rw [← h.running_term, hidle]
        exact id
      have hasked : DisciplineOk t s { d with nbytes := nbytes } := by
        refine ⟨h.curr_term, h.running_term, h.alone, h.switching, h.length_le, h.pending, h.flag,
          ?_, h.results⟩
        rw [← h.running_term, hidle]
        trivial
      exact Option.some.inj hs ▸ hasked.setReader ⟨rfl, hfree.2.2⟩ (Or.inr hquiet)
    · cases hs
  | readStep =>
    dsimp only at hs
    split_ifs at hs
    exact h.readStep hok hs

end DisciplineOk

/-! ## A call returns once it has a line -/

/-- The steps of the call under way, and no others, take it to its end. -/
def Returns (s : InputState) : Prop :=
  ∃ m s', lineInput.runFrom s (List.replicate m .readStep) = some s' ∧
    s'.reader s'.running_term = .idle

namespace Returns

variable {s u : InputState}

theorem of_step (hfree : s.Free) (hs : s.readStep = some u) (h : Returns u) : Returns s := by
  obtain ⟨m, s', hrun, hidle⟩ := h
  refine ⟨m + 1, s', ?_, hidle⟩
  have hstep : lineInput.step s .readStep = some u := (if_pos hfree).trans hs
  rw [List.replicate_succ, System.runFrom, hstep]
  exact hrun

theorem free_setReader (hfree : s.Free) (r : Reader) : (s.setReader r).Free := hfree

theorem setReader_self (s : InputState) (r : Reader) :
    (s.setReader r).reader (s.setReader r).running_term = r :=
  Function.update_self ..

theorem clearing {i : ℕ} {buf : ℕ → Option KeyCell} (hfree : s.Free)
    (hr : s.reader s.running_term = .clearing i buf) : Returns s := by
  refine of_step hfree (u := { s.setReader .idle with
    console := clear_keyboard_buffer s.console
    returned := { term := s.running_term, count := i, buf := buf } :: s.returned }) ?_ ?_
  · unfold InputState.readStep
    rw [hr]
  · exact ⟨0, _, rfl, Function.update_self ..⟩

theorem counting {n : ℤ} {i : ℕ} {buf : ℕ → Option KeyCell} (hfree : s.Free)
    (hr : s.reader s.running_term = .counting n i buf) : Returns s := by
  by_cases hlt : s.console.length_key < toUnsigned n
  · -- through `i = length_key`
    refine of_step hfree (u := s.setReader (.adjusting buf)) ?_ ?_
    · unfold InputState.readStep
      rw [hr]
      exact if_pos hlt
    · refine of_step (free_setReader hfree _)
        (u := s.setReader (.adjusting buf) |>.setReader (.clearing s.console.length_key buf)) ?_ ?_
      · unfold InputState.readStep
        rw [setReader_self]
        rfl
      · exact clearing hfree (setReader_self _ _)
  · refine of_step hfree (u := s.setReader (.clearing i buf)) ?_ ?_
    · unfold InputState.readStep
      rw [hr]
      exact if_neg hlt
    · exact clearing hfree (setReader_self _ _)

/-- The copy loop, by the number of rounds left. -/
theorem copying (rounds : ℕ) : ∀ {s : InputState} {n : ℤ} {i : ℕ} {buf : ℕ → Option KeyCell},
    s.Free → s.reader s.running_term = .copying n i buf → n ≤ i + rounds → Returns s := by
  induction rounds with
  | zero =>
    intro s n i buf hfree hr hn
    refine of_step hfree (u := s.setReader (.counting n i buf)) ?_ ?_
    · unfold InputState.readStep
      rw [hr]
      exact if_neg (by omega)
    · exact counting hfree (setReader_self _ _)
  | succ rounds ih =>
    intro s n i buf hfree hr hn
    by_cases hlt : (i : ℤ) < n
    · by_cases hkey : i < s.console.length_key
      · refine of_step hfree (u := s.setReader (.loading n i buf)) ?_ ?_
        · unfold InputState.readStep
          rw [hr]
          exact (if_pos hlt).trans (if_pos hkey)
        · refine of_step (free_setReader hfree _)
            (u := s.setReader (.loading n i buf) |>.setReader (.copying n (i + 1)
              (Function.update buf i (some (s.console.keyboard_buffer i))))) ?_ ?_
          · unfold InputState.readStep
            rw [setReader_self]
            rfl
          · exact ih hfree (setReader_self _ _) (by push_cast; omega)
      · refine of_step hfree (u := s.setReader (.copying n (i + 1) buf)) ?_ ?_
        · unfold InputState.readStep
          rw [hr]
          exact (if_pos hlt).trans (if_neg hkey)
        · exact ih hfree (setReader_self _ _) (by push_cast; omega)
    · refine of_step hfree (u := s.setReader (.counting n i buf)) ?_ ?_
      · unfold InputState.readStep
        rw [hr]
        exact if_neg hlt
      · exact counting hfree (setReader_self _ _)

theorem waiting {n : ℤ} (hfree : s.Free) (hr : s.reader s.running_term = .waiting n)
    (hflag : (s.console.term s.running_term).has_enter = true) : Returns s := by
  refine of_step hfree (u := s.setReader (.entered n)) ?_ ?_
  · unfold InputState.readStep
    rw [hr]
    exact if_pos hflag
  · refine of_step (free_setReader hfree _)
      (u := { (s.setReader (.entered n)).setReader (.copying n 0 fun _ => none) with
        console := s.console.modTerm s.running_term fun i => { i with has_enter := false } }) ?_ ?_
    · unfold InputState.readStep
      rw [setReader_self]
      rfl
    · exact copying (n := n) (i := 0) n.toNat hfree (Function.update_self ..) (by omega)

end Returns

/-! ## Runs -/

/-- In every run whose steps keep lines whole, each call of `terminal_read` got the next part
of the first committed line, the buffer holds what has not been read, and a call that waits
while a committed line is pending returns. -/
theorem line_discipline {t : TermId} {s : InputState} {d : Discipline}
    (h : (oneTerminal t).ReachableWhere WholeLines (s, d)) :
    (∀ r ∈ d.results, r.Right) ∧ s.console.text = d.pending ∧
      ∀ n, s.reader t = .waiting n → Committed newline d.pending → Returns s := by
  have hsafe : DisciplineOk t (s, d).1 (s, d).2 := by
    refine h.invariant (P := fun p => DisciplineOk t p.1 p.2) (fun p h0 => ?_)
      fun p e p' _ hp hok hs => ?_
    · obtain ⟨⟨hcurr, hrun, halone, hswitch, hidle, hlen, hflag⟩, hpending, hresults⟩ := h0
      refine ⟨hcurr, hrun, halone, hswitch, hlen, hpending.symm, ?_, ?_, ?_⟩
      · exact fun hc => Or.inl (hflag (hpending ▸ hc))
      · rw [hidle]
        trivial
      · rw [hresults]
        intro r hr
        cases hr
    · obtain ⟨hstep, hnote⟩ := System.withHistory_step_iff.mp hs
      rw [hnote]
      exact hp.step hok hstep
  refine ⟨hsafe.results, hsafe.pending, fun n hwait hc => ?_⟩
  have hquiet : ¬ (s.reader t).Copying := by
    rw [hwait]
    exact id
  have hfree : s.Free := by
    intro sw hsw
    rw [hsafe.switching] at hsw
    cases hsw
  have hflag := (hsafe.flag hc).resolve_right hquiet
  have hrun := hsafe.running_term
  dsimp only at hrun hflag
  rw [← hrun] at hwait hflag
  exact Returns.waiting hfree hwait hflag

instance (text found : List UInt8) (r : Reader) : Decidable (FindsLine text found r) :=
  r.casesOn (inferInstanceAs (Decidable True)) (fun _ => inferInstanceAs (Decidable True))
    (fun n => inferInstanceAs (Decidable (IsLine newline text ∧ (text.length : ℤ) ≤ n)))
    (fun _ _ _ => inferInstanceAs (Decidable (text = found)))
    (fun _ _ _ => inferInstanceAs (Decidable (text = found)))
    (fun _ _ _ => inferInstanceAs (Decidable (text = found)))
    (fun _ => inferInstanceAs (Decidable (text = found)))
    fun _ _ => inferInstanceAs (Decidable (text = found))

instance (p : InputState × Discipline) (e : InputEvent) : Decidable (WholeLines p e) :=
  e.casesOn
    (fun c => inferInstanceAs (Decidable (c ≠ 0 → c < KEY_COUNT → IsCharacter c p.1.console →
      p.1.console.length_key ≠ KEYBOARD_BUFFER_SIZE)))
    (inferInstanceAs (Decidable True)) (fun _ => inferInstanceAs (Decidable True))
    (fun _ => inferInstanceAs (Decidable True))
    (inferInstanceAs (Decidable
      (FindsLine p.1.console.text p.2.found (p.1.reader p.1.running_term))))

/-- Terminal 0 with the only process. -/
def sampleTyping : InputState × Discipline :=
  ({ sampleInput with has_process := fun t => t = 0 },
    { pending := [], found := [], nbytes := 0, results := [] })

theorem sampleTyping_init : (oneTerminal 0).init sampleTyping := by
  refine ⟨⟨rfl, rfl, ?_, rfl, rfl, ?_, ?_⟩, rfl, rfl⟩
  · exact fun u hu => of_decide_eq_true hu
  · decide
  · exact fun hc => absurd rfl hc.ne_nil

/-- Two letters are typed, one of them is erased again, and Enter is pressed while a call
waits. -/
theorem line_discipline_letter : ∃ s d, (oneTerminal 0).ReachableWhere WholeLines (s, d) ∧
    d.results.map LineResult.got = [[some 97, some 0x0a]] ∧ ∀ r ∈ d.results, r.Right := by
  have hrun : (((oneTerminal 0).restrict WholeLines).runFrom sampleTyping
      [.read 2, .key 0x1E, .readStep, .key 0x1F, .key 0x0E, .key 0x1C, .readStep, .readStep,
        .readStep, .readStep, .readStep, .readStep, .readStep, .readStep, .readStep]).any
      (fun p => decide (p.2.results.map LineResult.got = [[some 97, some 0x0a]])) = true := by
    decide +kernel
  obtain ⟨⟨s, d⟩, hreach, hgot⟩ := System.ReachableWhere.exists_of_run sampleTyping_init _ hrun
  exact ⟨s, d, hreach, hgot, (line_discipline hreach).1⟩

/-- A letter typed behind Enter is returned with the line. -/
theorem line_discipline_past_newline : ¬ ∀ s d, (oneTerminal 0).Reachable (s, d) →
    ∀ r ∈ d.results, r.Right := by
  intro hall
  have hrun : ((oneTerminal 0).runFrom sampleTyping
      ([.key 0x1E, .key 0x1C, .key 0x30, .read 8] ++ List.replicate 17 .readStep)).any
      (fun p => decide (∃ r ∈ p.2.results, r.got = [some 97, some 0x0a, some 98] ∧
        r.next = [97, 0x0a])) = true := by
    decide +kernel
  obtain ⟨⟨s, d⟩, hreach, r, hr, hgot, hnext⟩ :=
    System.Reachable.exists_of_run sampleTyping_init _ hrun
  have hright := (hall s d hreach r hr).got_eq
  rw [hgot, hnext] at hright
  exact absurd hright (by decide)

end Kernel391
