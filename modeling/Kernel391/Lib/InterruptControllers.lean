import Mathlib.Data.BitVec
import Mathlib.Tactic.Common
import Mathlib.Tactic.IntervalCases

/-!
# A pair of 8259 interrupt controllers

The two controllers of a PC, the slave at line 2 of the master, as their ports show them: the
initialisation words, the masks, the ends of interrupts, and what the processor gets when it
acknowledges an interrupt. Commands that rotate priorities, read registers back or ask for
special masks leave a controller as it is here.

An idle pair delivers the first line that requests and is not masked, in the order of `lines`
(`acknowledge_eq`).
-/

namespace Pic8259

/-- What a write to the data port means. -/
inductive Phase
  | ready | icw2 | icw3 | icw4
deriving DecidableEq, Repr

structure Pic where
  /-- The lines that are masked, that request, and that are in service. -/
  imr : BitVec 8
  irr : BitVec 8
  isr : BitVec 8
  /-- The vector of line 0. -/
  base : BitVec 8
  /-- For the master, the lines that have slaves; for a slave, the line it is at. -/
  cascade : BitVec 8
  /-- Interrupts end by themselves. -/
  auto : Bool
  needs4 : Bool
  phase : Phase
deriving DecidableEq, Repr

namespace Pic

/-- Write to the command port. -/
def command (v : BitVec 8) (p : Pic) : Pic :=
  if v.getLsbD 4 then
    { p with imr := 0, irr := 0, isr := 0, auto := false, needs4 := v.getLsbD 0, phase := .icw2 }
  else if v.getLsbD 3 then p
  else if v >>> 5 = 3 then { p with isr := p.isr &&& ~~~((1 : BitVec 8) <<< (v &&& 7).toNat) }
  else if v >>> 5 = 1 then { p with isr := p.isr &&& (p.isr - 1) }
  else p

/-- Write to the data port. -/
def data (v : BitVec 8) (p : Pic) : Pic :=
  match p.phase with
  | .ready => { p with imr := v }
  | .icw2 => { p with base := v &&& 0xf8, phase := .icw3 }
  | .icw3 => { p with cascade := v, phase := if p.needs4 then .icw4 else .ready }
  | .icw4 => { p with auto := v.getLsbD 1, phase := .ready }

/-- A line of this priority or a higher one is in service. -/
def blocked (p : Pic) (n : ℕ) : Bool := (List.range (n + 1)).any p.isr.getLsbD

/-- The line that the controller would interrupt for, when these request. -/
def pending (p : Pic) (requests : BitVec 8) : Option ℕ :=
  if p.phase = .ready then
    (List.range 8).find? fun n => requests.getLsbD n && !p.imr.getLsbD n && !p.blocked n
  else none

/-- The processor has acknowledged line `n`. -/
def serve (n : ℕ) (p : Pic) : Pic :=
  { p with
    irr := p.irr &&& ~~~((1 : BitVec 8) <<< n)
    isr := if p.auto then p.isr else p.isr ||| (1 : BitVec 8) <<< n }

end Pic

structure Pics where
  master : Pic
  slave : Pic
deriving DecidableEq, Repr

namespace Pics

/-- A byte written to a port. -/
def outb (v : BitVec 8) (port : ℕ) (s : Pics) : Pics :=
  if port = 0x20 then { s with master := s.master.command v }
  else if port = 0x21 then { s with master := s.master.data v }
  else if port = 0xa0 then { s with slave := s.slave.command v }
  else if port = 0xa1 then { s with slave := s.slave.data v }
  else s

/-- A device requests an interrupt; there is none at line 2. -/
def raise (n : ℕ) (s : Pics) : Pics :=
  if n = 2 then s
  else if n < 8 then
    { s with master := { s.master with irr := s.master.irr ||| (1 : BitVec 8) <<< n } }
  else { s with slave := { s.slave with irr := s.slave.irr ||| (1 : BitVec 8) <<< (n - 8) } }

/-- What requests at the master, where the slave is. -/
def requests (s : Pics) : BitVec 8 :=
  if (s.slave.pending s.slave.irr).isSome then s.master.irr ||| 4 else s.master.irr

/-- The processor acknowledges an interrupt and gets its vector, from the slave if the master
knows that there is one. -/
def acknowledge (s : Pics) : Option (ℕ × Pics) :=
  (s.master.pending s.requests).bind fun n =>
    if s.master.cascade.getLsbD n then
      if (s.slave.cascade &&& 7).toNat = n then
        (s.slave.pending s.slave.irr).map fun k =>
          ((s.slave.base + BitVec.ofNat 8 k).toNat,
            { master := s.master.serve n, slave := s.slave.serve k })
      else none
    else some ((s.master.base + BitVec.ofNat 8 n).toNat, { s with master := s.master.serve n })

end Pics

/-! ## What an idle pair delivers -/

/-- All lines, from the highest priority to the lowest. -/
def lines : List ℕ :=
  (List.range 8).flatMap fun n => if n = 2 then (List.range 8).map (8 + ·) else [n]

section Idle

variable {s : Pics} {p : Pic}

/-- Vectors from 0x20 on, the slave at line 2, and interrupts that are ended by hand. -/
structure Programmed (s : Pics) : Prop where
  master_ready : s.master.phase = .ready
  slave_ready : s.slave.phase = .ready
  master_base : s.master.base = 0x20
  slave_base : s.slave.base = 0x28
  master_cascade : s.master.cascade = 4
  slave_cascade : s.slave.cascade = 2
  master_manual : s.master.auto = false
  slave_manual : s.slave.auto = false

/-- Nothing is in service. -/
structure Idle (s : Pics) : Prop where
  master : s.master.isr = 0
  slave : s.slave.isr = 0

/-- Line `n` requests. -/
def Pics.line (s : Pics) (n : ℕ) : Bool :=
  if n < 8 then s.master.irr.getLsbD n else s.slave.irr.getLsbD (n - 8)

def Pics.masked (s : Pics) (n : ℕ) : Bool :=
  if n < 8 then s.master.imr.getLsbD n else s.slave.imr.getLsbD (n - 8) || s.master.imr.getLsbD 2

/-- It requests, and is not masked. -/
def Pics.asks (s : Pics) (n : ℕ) : Bool := s.line n && !s.masked n

/-- The pair after line `n` has been acknowledged. -/
def Pics.served (s : Pics) (n : ℕ) : Pics :=
  if n < 8 then { s with master := s.master.serve n }
  else { master := s.master.serve 2, slave := s.slave.serve (n - 8) }

/-- A search for the first result, by a search for the first element that has one. -/
theorem findSome?_eq_bind {α β : Type} {f g : α → Option β} {q : α → Bool} {l : List α}
    (h : ∀ a ∈ l, f a = if q a then g a else none) (hg : ∀ a ∈ l, q a → (g a).isSome) :
    l.findSome? f = (l.find? q).bind g := by
  induction l with
  | nil => rfl
  | cons a l ih =>
    have hrest := ih (fun b hb => h b (List.mem_cons_of_mem _ hb))
      fun b hb => hg b (List.mem_cons_of_mem _ hb)
    rw [List.findSome?_cons, List.find?_cons, h a List.mem_cons_self, hrest]
    cases ha : q a with
    | false => simp
    | true =>
      obtain ⟨b, hb⟩ := Option.isSome_iff_exists.mp (hg a List.mem_cons_self ha)
      simp [hb]

/-- Nothing in service blocks nothing. -/
theorem pending_idle (hready : p.phase = .ready) (hidle : p.isr = 0) (requests : BitVec 8) :
    p.pending requests =
      (List.range 8).find? fun n => requests.getLsbD n && !p.imr.getLsbD n := by
  have hblocked : ∀ n, p.blocked n = false := by
    intro n
    simp [Pic.blocked, hidle]
  simp [Pic.pending, hready, hblocked]

theorem getLsbD_four (n : ℕ) : (4 : BitVec 8).getLsbD n = decide (n = 2) := by
  by_cases hn : n < 8
  · interval_cases n <;> rfl
  · rw [BitVec.getLsbD_of_ge _ _ (by omega), decide_eq_false (by omega)]

theorem getLsbD_requests (n : ℕ) (h2 : s.master.irr.getLsbD 2 = false) :
    s.requests.getLsbD n =
      if n = 2 then (s.slave.pending s.slave.irr).isSome else s.master.irr.getLsbD n := by
  unfold Pics.requests
  by_cases hn : n = 2
  · subst hn
    rw [if_pos rfl]
    split_ifs with hsome
    · rw [BitVec.getLsbD_or, getLsbD_four, decide_eq_true rfl, Bool.or_true, hsome]
    · rw [h2, eq_false_of_ne_true hsome]
  · rw [if_neg hn]
    split_ifs
    · rw [BitVec.getLsbD_or, getLsbD_four, decide_eq_false hn, Bool.or_false]
    · rfl

/-- The line behind one of the master's inputs. -/
def Pics.behind (s : Pics) (n : ℕ) : Option ℕ :=
  if n = 2 then (s.slave.pending s.slave.irr).map (8 + ·) else some n

/-- The lines of one of the master's inputs. -/
theorem find?_asks (hslave : s.slave.phase = .ready) (hidle : s.slave.isr = 0)
    (h2 : s.master.irr.getLsbD 2 = false) {n : ℕ} (hn : n < 8) :
    (if n = 2 then (List.range 8).map (8 + ·) else [n]).find? s.asks =
      if s.requests.getLsbD n && !s.master.imr.getLsbD n then s.behind n else none := by
  unfold Pics.behind
  rw [getLsbD_requests n h2]
  by_cases hcascade : n = 2
  · subst hcascade
    have hasks : s.asks ∘ (8 + ·) = fun k => s.slave.irr.getLsbD k && !s.slave.imr.getLsbD k &&
        !s.master.imr.getLsbD 2 := by
      ext k
      simp [Pics.asks, Pics.line, Pics.masked, Bool.and_assoc]
    rw [if_pos rfl, if_pos rfl, if_pos rfl, List.find?_map, hasks, pending_idle hslave hidle]
    cases s.master.imr.getLsbD 2 with
    | true => simp
    | false =>
      simp only [Bool.not_false, Bool.and_true]
      cases (List.range 8).find? _ <;> simp
  · rw [if_neg hcascade, if_neg hcascade, if_neg hcascade, List.find?_singleton]
    simp [Pics.asks, Pics.line, Pics.masked, hn]

/-- The search through all lines is the master's search, and behind line 2 the slave's. -/
theorem find?_lines (h : Programmed s) (hidle : Idle s)
    (h2 : s.master.irr.getLsbD 2 = false) :
    lines.find? s.asks = (s.master.pending s.requests).bind s.behind := by
  unfold lines
  rw [List.find?_flatMap, pending_idle h.master_ready hidle.master]
  apply findSome?_eq_bind
  · intro n hn
    exact find?_asks h.slave_ready hidle.slave h2 (List.mem_range.mp hn)
  · intro n _ hasks
    rw [getLsbD_requests n h2, Bool.and_eq_true] at hasks
    unfold Pics.behind
    split_ifs at hasks ⊢ with hcascade
    · rw [Option.isSome_map]
      exact hasks.1
    · rfl

theorem pending_lt {n : ℕ} {requests : BitVec 8} (h : p.pending requests = some n) : n < 8 := by
  unfold Pic.pending at h
  split_ifs at h
  exact List.mem_range.mp (List.mem_of_find?_eq_some h)

/-- A pair that is programmed and idle delivers the first line of `lines` that asks. -/
theorem acknowledge_eq (h : Programmed s) (hidle : Idle s)
    (h2 : s.master.irr.getLsbD 2 = false) :
    s.acknowledge = (lines.find? s.asks).map fun n => (0x20 + n, s.served n) := by
  rw [find?_lines h hidle h2]
  unfold Pics.acknowledge
  cases hn : s.master.pending s.requests with
  | none => rfl
  | some n =>
    have hlt := pending_lt hn
    simp only [Option.bind_some, h.master_cascade, h.slave_cascade, h.master_base, h.slave_base,
      Pics.behind, getLsbD_four]
    by_cases hcascade : n = 2
    · subst hcascade
      cases hk : s.slave.pending s.slave.irr with
      | none => rfl
      | some k =>
        have hlt' := pending_lt hk
        have hserved : s.served (8 + k) =
            { master := s.master.serve 2, slave := s.slave.serve k } := by
          simp [Pics.served]
        simp [hserved, ← Nat.add_assoc]
        omega
    · simp [hcascade, Pics.served, hlt]
      omega

/-! ## What changes the pair -/

theorem getLsbD_bit {n m : ℕ} (hn : n < 8) :
    ((1 : BitVec 8) <<< n).getLsbD m = decide (m = n) := by
  by_cases hm : m < 8
  · interval_cases n <;> interval_cases m <;> rfl
  · rw [BitVec.getLsbD_of_ge _ _ (by omega), decide_eq_false (by omega)]

theorem programmed_raise {n : ℕ} (h : Programmed s) : Programmed (s.raise n) := by
  unfold Pics.raise
  split_ifs
  · exact h
  · exact { h with }
  · exact { h with }

theorem programmed_served {n : ℕ} (h : Programmed s) : Programmed (s.served n) := by
  unfold Pics.served
  split_ifs
  · exact { h with }
  · exact { h with }

theorem line_raise {n m : ℕ} (hn : n < 16) (hm : m < 16) (h2 : n ≠ 2) :
    (s.raise n).line m = (decide (m = n) || s.line m) := by
  unfold Pics.raise Pics.line
  rw [if_neg h2]
  by_cases hn8 : n < 8
  · rw [if_pos hn8]
    by_cases hm8 : m < 8
    · rw [if_pos hm8, if_pos hm8, BitVec.getLsbD_or, getLsbD_bit hn8, Bool.or_comm]
    · rw [if_neg hm8, if_neg hm8, decide_eq_false (by omega), Bool.false_or]
  · rw [if_neg hn8]
    by_cases hm8 : m < 8
    · rw [if_pos hm8, if_pos hm8, decide_eq_false (by omega), Bool.false_or]
    · have hsame : decide (m - 8 = n - 8) = decide (m = n) := by
        rw [decide_eq_decide]
        omega
      rw [if_neg hm8, if_neg hm8, BitVec.getLsbD_or, getLsbD_bit (by omega), hsame, Bool.or_comm]

theorem getLsbD_serve {n m : ℕ} (hn : n < 8) (hm : m < 8) :
    (p.serve n).irr.getLsbD m = (!decide (m = n) && p.irr.getLsbD m) := by
  unfold Pic.serve
  rw [BitVec.getLsbD_and, BitVec.getLsbD_not, getLsbD_bit hn, decide_eq_true hm, Bool.true_and,
    Bool.and_comm]

/-- Line 2 has no device. -/
theorem line_served {n m : ℕ} (hn : n < 16) (hm : m < 16) (h2 : s.line 2 = false) :
    (s.served n).line m = (!decide (m = n) && s.line m) := by
  unfold Pics.served
  unfold Pics.line at h2 ⊢
  rw [if_pos (by omega)] at h2
  by_cases hn8 : n < 8
  · rw [if_pos hn8]
    by_cases hm8 : m < 8
    · rw [if_pos hm8, if_pos hm8]
      exact getLsbD_serve hn8 hm8
    · rw [if_neg hm8, if_neg hm8, decide_eq_false (by omega), Bool.not_false, Bool.true_and]
  · rw [if_neg hn8]
    by_cases hm8 : m < 8
    · rw [if_pos hm8, if_pos hm8, decide_eq_false (by omega), Bool.not_false, Bool.true_and,
        getLsbD_serve (by omega) hm8]
      by_cases hm2 : m = 2
      · rw [hm2, h2, Bool.and_false]
      · rw [decide_eq_false hm2, Bool.not_false, Bool.true_and]
    · have hsame : decide (m - 8 = n - 8) = decide (m = n) := by
        rw [decide_eq_decide]
        omega
      rw [if_neg hm8, if_neg hm8, getLsbD_serve (by omega) (by omega), hsame]

/-- The end of one interrupt. -/
theorem command_eoi {n : ℕ} (hn : n < 8) (p : Pic) :
    p.command (0x60 ||| BitVec.ofNat 8 n) =
      { p with isr := p.isr &&& ~~~((1 : BitVec 8) <<< n) } := by
  interval_cases n <;> rfl

/-- What is delivered is a line with a device. -/
theorem lines_lt : ∀ n ∈ lines, n < 16 ∧ n ≠ 2 := by decide

/-- The four initialisation words leave nothing of what was, and no mask. -/
theorem init_words (p : Pic) (base cascade : BitVec 8) :
    (((p.command 0x11).data base).data cascade).data 0x01 =
      { imr := 0, irr := 0, isr := 0, base := base &&& 0xf8, cascade := cascade, auto := false,
        needs4 := true, phase := .ready } := by
  have hcommand : p.command 0x11 = { p with
      imr := 0, irr := 0, isr := 0, auto := false, needs4 := true, phase := .icw2 } := by
    unfold Pic.command
    rw [if_pos (by decide)]
    rfl
  rw [hcommand]
  rfl

/-- A controller that awaits no more initialisation words takes its mask. -/
theorem data_ready (h : p.phase = .ready) (v : BitVec 8) : p.data v = { p with imr := v } := by
  unfold Pic.data
  rw [h]

end Idle

end Pic8259
