import Mathlib.Data.List.Infix

/-!
# Lines of a text

A text of any letters, cut at the letter `nl`, and what a program prints that goes through it
line by line (`perLine`). A program that has only room for lines of `n` letters works on texts
with `LinesAtMost nl n`: when its room is full and no `nl` is in it, the line ends there
(`LinesAtMost.full`). `Midway` is where such a program stands between two lines.
-/

namespace Lines

variable {α β : Type} [BEq α] [LawfulBEq α] {nl : α} {n : ℕ} {f : List α → List β}
  {line t : List α}

/-- The first line is empty: the text ends, or an `nl` is next. -/
theorem splitOn_eq_nil_cons {ls : List (List α)} (h : t.splitOn nl = [] :: ls) :
    t = [] ∧ ls = [] ∨ ∃ t', t = nl :: t' ∧ t'.splitOn nl = ls := by
  cases t with
  | nil =>
    rw [List.splitOn_nil, List.cons.injEq] at h
    exact .inl ⟨rfl, h.2.symm⟩
  | cons b t =>
    rw [List.splitOn_cons_eq_if_modifyHead] at h
    split_ifs at h with hb
    · rw [List.cons.injEq] at h
      exact .inr ⟨t, by rw [eq_of_beq hb], h.2⟩
    · obtain ⟨l, ls', hsplit⟩ := List.exists_cons_of_ne_nil (List.splitOn_ne_nil nl t)
      rw [hsplit, List.modifyHead_cons, List.cons.injEq] at h
      exact absurd h.1 (List.cons_ne_nil b l)

/-- It has a letter, which is next in the text. -/
theorem splitOn_eq_cons_cons {b : α} {l : List α} {ls : List (List α)}
    (h : t.splitOn nl = (b :: l) :: ls) :
    b ≠ nl ∧ ∃ t', t = b :: t' ∧ t'.splitOn nl = l :: ls := by
  cases t with
  | nil =>
    rw [List.splitOn_nil, List.cons.injEq] at h
    exact absurd h.1.symm (List.cons_ne_nil b l)
  | cons a t =>
    rw [List.splitOn_cons_eq_if_modifyHead] at h
    split_ifs at h with ha
    · rw [List.cons.injEq] at h
      exact absurd h.1.symm (List.cons_ne_nil b l)
    · obtain ⟨l', ls', hsplit⟩ := List.exists_cons_of_ne_nil (List.splitOn_ne_nil nl t)
      rw [hsplit, List.modifyHead_cons, List.cons.injEq, List.cons.injEq] at h
      obtain ⟨⟨rfl, rfl⟩, rfl⟩ := h
      exact ⟨fun heq => ha (beq_iff_eq.mpr heq), t, rfl, hsplit⟩

/-- `f` of each line, one after the other. -/
def perLine (nl : α) (f : List α → List β) (t : List α) : List β := (t.splitOn nl).flatMap f

theorem perLine_line (h : nl ∉ line) :
    perLine nl f (line ++ nl :: t) = f line ++ perLine nl f t := by
  unfold perLine
  rw [List.splitOn_append_cons_self_of_not_mem h, List.flatMap_cons]

theorem perLine_last (h : nl ∉ line) : perLine nl f line = f line := by
  unfold perLine
  rw [List.splitOn_eq_singleton h, List.flatMap_cons, List.flatMap_nil, List.append_nil]

theorem perLine_nl (hnil : f [] = []) : perLine nl f (nl :: t) = perLine nl f t := by
  have hempty := perLine_line (f := f) (t := t) (List.not_mem_nil (a := nl))
  rw [List.nil_append, hnil, List.nil_append] at hempty
  exact hempty

/-- No line is longer than `n`. -/
def LinesAtMost (nl : α) (n : ℕ) (t : List α) : Prop := ∀ line ∈ t.splitOn nl, line.length ≤ n

theorem linesAtMost_line (hline : nl ∉ line) :
    LinesAtMost nl n (line ++ nl :: t) ↔ line.length ≤ n ∧ LinesAtMost nl n t := by
  unfold LinesAtMost
  rw [List.splitOn_append_cons_self_of_not_mem hline, List.forall_mem_cons]

theorem linesAtMost_nl : LinesAtMost nl n (nl :: t) ↔ LinesAtMost nl n t := by
  have hempty := linesAtMost_line (n := n) (t := t) (List.not_mem_nil (a := nl))
  rw [List.nil_append] at hempty
  exact hempty.trans ⟨fun h => h.2, fun h => ⟨Nat.zero_le n, h⟩⟩

theorem linesAtMost_nil : LinesAtMost nl n ([] : List α) := by
  intro line hline
  rw [List.splitOn_eq_singleton List.not_mem_nil, List.mem_singleton] at hline
  rw [hline]
  exact Nat.zero_le n

/-- The first line is at least as long as what is in front of the first `nl`. -/
theorem exists_line_of_front (h : nl ∉ line) :
    ∃ l ∈ (line ++ t).splitOn nl, line.length ≤ l.length := by
  induction t generalizing line with
  | nil =>
    rw [List.append_nil, List.splitOn_eq_singleton h]
    exact ⟨line, List.mem_singleton_self line, Nat.le_refl _⟩
  | cons b t ih =>
    by_cases hb : b = nl
    · rw [hb, List.splitOn_append_cons_self_of_not_mem h]
      exact ⟨line, List.mem_cons_self, Nat.le_refl _⟩
    · have hlonger : nl ∉ line ++ [b] := by
        rw [List.mem_append, List.mem_singleton]
        exact not_or.mpr ⟨h, Ne.symm hb⟩
      obtain ⟨l, hl, hlen⟩ := ih hlonger
      rw [List.append_assoc, List.singleton_append] at hl
      rw [List.length_append, List.length_singleton] at hlen
      exact ⟨l, hl, by omega⟩

/-- The text ends here, or the line does. -/
def LineEnds (nl : α) (t : List α) : Prop := t = [] ∨ ∃ t', t = nl :: t'

/-- A line of `n` letters ends there. -/
theorem LinesAtMost.full (h : LinesAtMost nl n (line ++ t)) (hline : nl ∉ line)
    (hfull : line.length = n) : LineEnds nl t := by
  cases t with
  | nil => exact .inl rfl
  | cons b t =>
    by_cases hb : b = nl
    · exact .inr ⟨t, by rw [hb]⟩
    · -- otherwise the first line is too long
      have hlonger : nl ∉ line ++ [b] := by
        rw [List.mem_append, List.mem_singleton]
        exact not_or.mpr ⟨hline, Ne.symm hb⟩
      obtain ⟨l, hl, hlen⟩ := exists_line_of_front (t := t) hlonger
      rw [List.append_assoc, List.singleton_append] at hl
      have hle := h l hl
      rw [List.length_append, List.length_singleton] at hlen
      omega

/-! ## Line by line -/

/-- `out` has been printed, and `t` is left of a text for which `whole` is to be printed. -/
structure Midway (nl : α) (n : ℕ) (f : List α → List β) (whole out : List β) (t : List α) :
    Prop where
  printed : out ++ perLine nl f t = whole
  short : LinesAtMost nl n t

section
variable {whole out : List β}

/-- The next line is done. What is behind it stays, with the `nl`. -/
theorem Midway.next (h : Midway nl n f whole out (line ++ t)) (hnil : f [] = [])
    (hline : nl ∉ line) (hends : LineEnds nl t) : Midway nl n f whole (out ++ f line) t := by
  rcases hends with rfl | ⟨t', rfl⟩
  · refine ⟨?_, linesAtMost_nil⟩
    rw [← h.printed, List.append_nil, perLine_last hline, perLine_last List.not_mem_nil, hnil,
      List.append_nil]
  · refine ⟨?_, linesAtMost_nl.mpr ((linesAtMost_line hline).mp h.short).2⟩
    rw [← h.printed, perLine_line hline, perLine_nl hnil, List.append_assoc]

theorem Midway.skip (h : Midway nl n f whole out (nl :: t)) (hnil : f [] = []) :
    Midway nl n f whole out t := by
  refine ⟨?_, linesAtMost_nl.mp h.short⟩
  rw [← h.printed, perLine_nl hnil]

/-- Nothing is left. -/
theorem Midway.done (h : Midway nl n f whole out []) (hnil : f [] = []) : out = whole := by
  rw [← h.printed, perLine_last List.not_mem_nil, hnil, List.append_nil]

end

end Lines
