import Kernel391.Typing

/-!
# The search of Backspace

Over a line feed, Backspace walks back through video memory for the character typed before
it. Nothing in the loop stops at the start of the screen, or makes sure that there is such a
character in the line, or on the screen: a Tab is drawn as blanks. `backspace_search_iff`
says when the walk stays where it should, in any run of keys and output.
-/

namespace Kernel391

open TransitionSystem SearchDown

/-- The search of a Backspace pressed now ends with the cursor on the screen, for a character
of the line buffer, and looks only at bytes of the screen. -/
structure SearchStays (t : TermId) (s : Console) : Prop where
  ends : ∃ s', handle_backspace t s = some s' ∧ 0 ≤ s'.current_location ∧
    s'.current_location ≤ 3998
  character : keyIndex s 2 < KEYBOARD_BUFFER_SIZE
  reads : ∀ o ∈ looked (Matches s.vmem (s.keyboard_buffer (keyIndex s 2)).c)
    (s.current_location + 1).toNat s.current_location, 0 ≤ o ∧ o < SCREEN_SIZE

section
variable {t : TermId} {s : Console} {p : Console × TermId}

/-- Where the search is made, it decides where the cursor goes. -/
theorem handle_backspace_search (h : Searches s) (hlen : s.length_key ≤ KEYBOARD_BUFFER_SIZE) :
    handle_backspace t s =
      (searchBack s.vmem (s.keyboard_buffer (keyIndex s 2)).c
        (s.current_location + 1).toNat s.current_location).map fun o =>
          eraseKey { s with current_location := o + 2 } := by
  obtain ⟨hloc, hempty, hfeed, htwo⟩ := h
  have htab : s.lastKey ≠ 0x09 := by
    rw [hfeed]
    decide
  rw [handle_backspace_eq hloc hempty hlen, if_neg htab, if_pos hfeed, if_neg htwo]

/-- The bytes that are looked at: none in front of the screen exactly if one is found. -/
theorem looked_onScreen_iff {c : UInt8} (hs : s.screen.OnGrid) :
    (∀ o ∈ looked (Matches s.vmem c) (s.current_location + 1).toNat s.current_location,
      0 ≤ o ∧ o < SCREEN_SIZE) ↔
      (searchBack s.vmem c (s.current_location + 1).toNat s.current_location).isSome := by
  have hsize : (SCREEN_SIZE : ℤ) = 4000 := rfl
  have h0 : 0 ≤ s.current_location := hs.nonneg
  have hle : s.current_location ≤ 3998 := hs.le
  have hstart : s.current_location - ((s.current_location + 1).toNat : ℤ) = -1 := by omega
  rw [searchBack_eq, ← looked_inside_iff, hstart]
  constructor
  · intro h o ho
    have hinside := (h o ho).1
    omega
  · intro h o ho
    have hlo := h o ho
    have hhi := looked_le ho
    omega

/-- At one state: the search stays on the screen exactly if there is a character before the
line feed, and it is found, and not in the last cell. -/
theorem TypingOk.searchStays_iff (h : TypingOk p) (hsearch : Searches p.1) :
    SearchStays p.2 p.1 ↔ 2 ≤ p.1.length_key ∧ SearchEnds p.1 := by
  have hs := h.live_screen
  have hlen := h.live_length
  have hle : p.1.current_location ≤ 3998 := hs.onGrid.le
  have hempty := hsearch.2.1
  have hcharacter := keyIndex_inside hlen hempty
  by_cases hlong : 2 ≤ p.1.length_key
  · have hbefore : (p.1.keyboard_buffer (keyIndex p.1 2)).c = p.1.keyBefore := by
      rw [keyIndex_before hlen hlong]
      rfl
    have hkey : KeyChar p.1.keyBefore := h.live_chars _ (mem_cells (by omega))
    have hback := handle_backspace_search (t := p.2) hsearch hlen
    rw [hbefore] at hback
    rw [and_iff_right hlong]
    constructor
    · rintro ⟨⟨s', hs', -, hhi⟩, -, -⟩
      rw [hback, Option.map_eq_some_iff] at hs'
      obtain ⟨o, hfound, rfl⟩ := hs'
      have hhi' : o + 2 ≤ 3998 := hhi
      obtain ⟨i, rfl, hi0, hi, hchar, hlast⟩ := (searchBack_eq_some_iff hs hkey).mp hfound
      refine ⟨⟨i, hi0, hi, hchar⟩, fun hend => ?_⟩
      exact hlast 1999 (by omega) (by omega) hend.2
    · rintro ⟨hexists, hend⟩
      have hsome := (searchBack_isSome_iff hs hkey).mpr hexists
      obtain ⟨o, hfound⟩ := Option.isSome_iff_exists.mp hsome
      obtain ⟨i, rfl, hi0, hi, hchar, -⟩ := (searchBack_eq_some_iff hs hkey).mp hfound
      have hlast : i ≠ 1999 := fun hlast => hend ⟨by omega, hlast ▸ hchar⟩
      refine ⟨⟨eraseKey { p.1 with current_location := 2 * i + 2 }, ?_, ?_, ?_⟩, ?_, ?_⟩
      · rw [hback, hfound]
        rfl
      · show 0 ≤ 2 * i + 2
        omega
      · show 2 * i + 2 ≤ 3998
        omega
      · rw [hcharacter]
        omega
      · rw [hbefore]
        exact (looked_onScreen_iff hs.onGrid).mpr hsome
  · -- nothing stands before the line feed
    refine iff_of_false (fun hstays => ?_) fun hboth => hlong hboth.1
    have hne := hcharacter.mp hstays.character
    omega

/-- In every run whose steps keep the cursor on the screen, it is there, and the search of a
Backspace pressed next stays there if and only if that step keeps the cursor on the screen
too. -/
theorem backspace_search_iff (h : typingSystem.ReachableWhere KeepsOnScreen p) :
    (0 ≤ p.1.current_location ∧ p.1.current_location ≤ 3998) ∧
      (Searches p.1 →
        (SearchStays p.2 p.1 ↔ 2 ≤ p.1.length_key ∧ SearchEnds p.1) ∧
          (SearchStays p.2 p.1 ↔ KeepsOnScreen p (.key BACKSPACE))) := by
  have hok := ReachableWhere.typingOk h
  have hgrid := hok.live_screen.onGrid
  refine ⟨⟨hgrid.nonneg, hgrid.le⟩, fun hsearch => ⟨hok.searchStays_iff hsearch, ?_⟩⟩
  rw [hok.searchStays_iff hsearch]
  constructor
  · intro hend
    refine ⟨fun hchar => absurd List.mem_cons_self hchar.1, fun _ => ⟨?_, ?_, fun _ => hend⟩⟩
    · intro _ htab
      rw [hsearch.2.2.1] at htab
      exact absurd htab (by decide)
    · intro htwo _ hfeed
      exact absurd ⟨htwo, hfeed⟩ hsearch.2.2.2
  · intro hkeeps
    exact (hkeeps.2 rfl).search hsearch

end

/-- The letter a on the first screen. -/
def typedLetter : Console := process_key 0 0x1E (init_term_console Console.blank)

/-- And Enter behind it. -/
def typedLine : Console := append_key 0 0x0a (handle_enter 0 typedLetter)

theorem typedLetter_reachable : typingSystem.ReachableWhere KeepsOnScreen (typedLetter, 0) := by
  apply System.ReachableWhere.step (s := (init_term_console Console.blank, 0)) (e := .key 0x1E)
  · exact .init ⟨⟨Console.blank, rfl⟩, rfl⟩
  · exact ⟨fun _ => by decide, fun h => absurd h (by decide)⟩
  · rw [step_key, process_char_character (by decide)]
    rfl

theorem typedLine_reachable : typingSystem.ReachableWhere KeepsOnScreen (typedLine, 0) := by
  apply System.ReachableWhere.step (e := .key ENTER) typedLetter_reachable
  · exact ⟨fun h => absurd (by decide) h.1, fun h => absurd h (by decide)⟩
  · rw [step_key, process_char_enter, if_neg (by decide)]
    rfl

theorem backspace_search_sample : Searches typedLine ∧ SearchStays 0 typedLine := by
  have hsearch : Searches typedLine := by decide +kernel
  refine ⟨hsearch, ((backspace_search_iff typedLine_reachable).2 hsearch).1.mpr ⟨?_, ?_, ?_⟩⟩
  · decide
  · exact ⟨0, by decide +kernel⟩
  · decide +kernel

/-- A Tab and Enter: Backspace looks for the Tab, which is not on the screen. -/
theorem backspace_search_leaves : ¬ ∀ p, typingSystem.ReachableWhere PressesKey p →
    Searches p.1 → SearchStays p.2 p.1 := by
  intro hall
  have hinit : typingSystem.init (init_term_console Console.blank, 0) :=
    ⟨⟨Console.blank, rfl⟩, rfl⟩
  obtain ⟨p, hreach, hsearch, hnone⟩ : ∃ p, typingSystem.ReachableWhere PressesKey p ∧
      Searches p.1 ∧ (handle_backspace p.2 p.1).isNone = true :=
    System.ReachableWhere.exists_of_run hinit [.key TAB, .key ENTER] (by decide +kernel)
  obtain ⟨s', hs', -⟩ := (hall p hreach hsearch).ends
  rw [hs'] at hnone
  cases hnone

end Kernel391
