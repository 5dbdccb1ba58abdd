import Kernel391.RtcRates

/-!
# Waiting for the RTC (`rtc_read`, with interrupts in between)

`rtc_interrupt_handler` sets a flag for each terminal, and `rtc_read` waits for the flag of its
own terminal and clears it, a number of times: 1024 by the terminal's rate by the number of
terminals in use. Interrupts, ticks and the readers of the three terminals interleave between
the pieces of a call. The arithmetic before the loop looks at nothing the handler writes, and
is one piece with the start of the call.

A run notes how many interrupts came since each call began, and that number for each call
that has returned. It is never 0 if every call has two flags to wait for, or one and finds it
clear (`rtc_read_waits_iff`); a call that has not may return at once.
-/

namespace Kernel391

open TransitionSystem

/-! ## The pieces of `rtc_read` -/

/-- Where a call of `rtc_read` stands. -/
inductive RtcReader where
  /-- No call. -/
  | idle
  /-- At the head of the loop: at `i < count`, and then at the `while`. -/
  | waiting (count i : ℕ)
  /-- Behind the `while`. -/
  | clearing (count i : ℕ)
deriving DecidableEq

structure RtcState where
  rtc_interrupt_occurred : TermId → Bool
  term : TermId → TermInfo
  running_term : TermId
  reader : TermId → RtcReader

inductive RtcReadEvent where
  /-- The RTC interrupts. -/
  | interrupt
  /-- The timer runs the process of another terminal. -/
  | tick (next : TermId)
  /-- A terminal gets another process, or loses its last one; a call of the one before does
  not go on. -/
  | process (t : TermId) (pid : Option Pid)
  /-- The running process calls `rtc_open`. -/
  | openRtc
  /-- The running process calls `rtc_write`. -/
  | write (buf : Bytes)
  /-- The running process calls `rtc_read`. -/
  | read
  /-- Its call goes on. -/
  | readStep

namespace RtcState

/-- The running process is not inside `rtc_read`. -/
def Idle (s : RtcState) : Prop := s.reader s.running_term = .idle

instance (s : RtcState) : Decidable s.Idle := by
  unfold Idle
  infer_instance

def setReader (s : RtcState) (r : RtcReader) : RtcState :=
  { s with reader := Function.update s.reader s.running_term r }

def setFlag (s : RtcState) (b : Bool) : RtcState :=
  { s with rtc_interrupt_occurred := Function.update s.rtc_interrupt_occurred s.running_term b }

def modTerm (s : RtcState) (t : TermId) (f : TermInfo → TermInfo) : RtcState :=
  { s with term := Function.update s.term t (f (s.term t)) }

/-- The rate of the running process's terminal. -/
def rtc_freq (s : RtcState) : ℕ := (s.term s.running_term).rtc_freq

/-- The first terminal always counts. -/
def num_running (s : RtcState) : ℕ :=
  1 + (if (s.term 1).running_pid ≠ none then 1 else 0) +
    (if (s.term 2).running_pid ≠ none then 1 else 0)

/-- How many interrupts the call is to wait for. -/
def count (s : RtcState) : ℕ := MAX_RTC_FREQ / s.rtc_freq / s.num_running

def rtc_interrupt_handler (s : RtcState) : RtcState :=
  { s with rtc_interrupt_occurred := fun _ => true }

def setFreq (s : RtcState) (rate : ℕ) : RtcState :=
  s.modTerm s.running_term fun i => { i with rtc_freq := rate }

def rtc_open (s : RtcState) : RtcState := s.setFreq MIN_RTC_FREQ

def rtc_write (s : RtcState) (buf : Bytes) : RtcState :=
  if rateOf buf < MIN_RTC_FREQ ∨ rateOf buf > MAX_RTC_FREQ then s
  else s.setFreq (rateOf buf).toNat

/-- One piece of `rtc_read`. -/
def readStep (s : RtcState) : Option RtcState :=
  match s.reader s.running_term with
  | .idle => none
  | .waiting count i =>
    if i < count then
      if s.rtc_interrupt_occurred s.running_term then some (s.setReader (.clearing count i))
      else some s
    else some (s.setReader .idle)
  | .clearing count i => some ((s.setReader (.waiting count (i + 1))).setFlag false)

def step (s : RtcState) : RtcReadEvent → Option RtcState
  | .interrupt => some s.rtc_interrupt_handler
  | .tick next =>
    if (s.term next).running_pid = none then none else some { s with running_term := next }
  | .process t pid =>
    some { s.modTerm t fun i => { i with running_pid := pid } with
      reader := Function.update s.reader t .idle }
  | .openRtc => if s.Idle then some s.rtc_open else none
  | .write buf => if s.Idle then some (s.rtc_write buf) else none
  | .read =>
    -- a rate of 0 is a division by zero
    if s.Idle ∧ s.rtc_freq ≠ 0 then some (s.setReader (.waiting s.count 0)) else none
  | .readStep => s.readStep

end RtcState

/-! ## The calls as the kernel's drivers have them -/

section
variable (k : Kernel) (flag : TermId → Bool) (reader : TermId → RtcReader)

/-- What the RTC driver sees of the kernel. -/
def RtcState.ofKernel : RtcState where
  rtc_interrupt_occurred := flag
  term := k.term
  running_term := k.running_term
  reader := reader

theorem RtcState.rtc_write_ofKernel (buf : Bytes) :
    (ofKernel k flag reader).rtc_write buf =
      ofKernel (Kernel391.rtc_write buf k).1 flag reader := by
  rw [rtc_write_eq, RtcState.rtc_write]
  by_cases hrange : rateOf buf < MIN_RTC_FREQ ∨ rateOf buf > MAX_RTC_FREQ
  · rw [if_pos hrange, if_neg (by omega)]
  · rw [if_neg hrange, if_pos (by omega)]
    rfl

/-- A call faults where `rtc_read` of the drivers does. -/
theorem RtcState.read_ofKernel (h : (ofKernel k flag reader).Idle) :
    ((ofKernel k flag reader).step .read).isSome = (rtc_read k).isSome := by
  by_cases hfreq : (ofKernel k flag reader).rtc_freq = 0
  · have hk : (k.term k.running_term).rtc_freq = 0 := hfreq
    simp [RtcState.step, rtc_read, hfreq, hk]
  · have hk : (k.term k.running_term).rtc_freq ≠ 0 := hfreq
    simp [RtcState.step, rtc_read, h, hfreq, hk]

end

namespace RtcState

variable {s s' : RtcState}

/-- And like it leaves the terminals as they are. -/
theorem readStep_term (h : s.readStep = some s') :
    s'.term = s.term ∧ s'.running_term = s.running_term := by
  unfold readStep at h
  split at h
  · cases h
  · split_ifs at h <;>
    · rw [Option.some.injEq] at h
      subst h
      exact ⟨rfl, rfl⟩
  · rw [Option.some.injEq] at h
    subst h
    exact ⟨rfl, rfl⟩

theorem tick_eq_some {next : TermId} (h : s.step (.tick next) = some s') :
    (s.term next).running_pid ≠ none ∧ s' = { s with running_term := next } := by
  have hs : (if (s.term next).running_pid = none then none
      else some { s with running_term := next }) = some s' := h
  split_ifs at hs with hpid
  exact ⟨hpid, (Option.some.inj hs).symm⟩

theorem openRtc_eq_some (h : s.step .openRtc = some s') : s.Idle ∧ s' = s.rtc_open := by
  have hs : (if s.Idle then some s.rtc_open else none) = some s' := h
  split_ifs at hs with hidle
  exact ⟨hidle, (Option.some.inj hs).symm⟩

theorem write_eq_some {buf : Bytes} (h : s.step (.write buf) = some s') :
    s.Idle ∧ s' = s.rtc_write buf := by
  have hs : (if s.Idle then some (s.rtc_write buf) else none) = some s' := h
  split_ifs at hs with hidle
  exact ⟨hidle, (Option.some.inj hs).symm⟩

theorem read_eq_some (h : s.step .read = some s') :
    s.Idle ∧ s.rtc_freq ≠ 0 ∧ s' = s.setReader (.waiting s.count 0) := by
  have hs : (if s.Idle ∧ s.rtc_freq ≠ 0 then some (s.setReader (.waiting s.count 0))
      else none) = some s' := h
  split_ifs at hs with hread
  exact ⟨hread.1, hread.2, (Option.some.inj hs).symm⟩

/-- Nothing but the rate of the running terminal. -/
theorem rtc_write_cases (s : RtcState) (buf : Bytes) :
    s.rtc_write buf = s ∨
      ∃ rate : ℕ, MIN_RTC_FREQ ≤ rate ∧ rate ≤ MAX_RTC_FREQ ∧ s.rtc_write buf = s.setFreq rate := by
  by_cases hrange : rateOf buf < MIN_RTC_FREQ ∨ rateOf buf > MAX_RTC_FREQ
  · exact Or.inl (if_pos hrange)
  · refine Or.inr ⟨(rateOf buf).toNat, ?_, ?_, if_neg hrange⟩ <;>
    · rw [not_or] at hrange
      omega

end RtcState

/-! ## Runs -/

/-- The interrupts delivered since each terminal's call began, and for each call that has
returned how many there had been. -/
structure RtcHistory where
  delivered : TermId → ℕ
  returned : List ℕ

def RtcHistory.initial : RtcHistory where
  delivered _ := 0
  returned := []

def noteInterrupts (s : RtcState) (e : RtcReadEvent) (h : RtcHistory) : RtcHistory :=
  match e with
  | .interrupt => { h with delivered := fun t => h.delivered t + 1 }
  | .read => { h with delivered := Function.update h.delivered s.running_term 0 }
  | .readStep =>
    match s.reader s.running_term with
    | .waiting count i =>
      if i < count then h else { h with returned := h.delivered s.running_term :: h.returned }
    | _ => h
  | _ => h

/-- From the state `init_term` leaves, with any processes on the terminals. -/
def rtcReads : System (RtcState × RtcHistory) RtcReadEvent :=
  System.withHistory
    { init := fun s => (∀ t, (s.term t).rtc_freq = MAX_RTC_FREQ) ∧
        (∀ t, s.rtc_interrupt_occurred t = false) ∧ ∀ t, s.reader t = .idle
      step := RtcState.step }
    (fun _ h => h = RtcHistory.initial) noteInterrupts

/-- Every call that has returned has seen an interrupt. -/
def Waited (p : RtcState × RtcHistory) : Prop := ∀ n ∈ p.2.returned, 0 < n

instance (p : RtcState × RtcHistory) : Decidable (Waited p) := by
  unfold Waited
  infer_instance

/-- A call begun now has two flags to wait for, or one that is clear. -/
def RtcState.Renews (s : RtcState) : Prop :=
  2 * (s.rtc_freq * s.num_running) ≤ MAX_RTC_FREQ ∨
    s.rtc_freq * s.num_running ≤ MAX_RTC_FREQ ∧
      s.rtc_interrupt_occurred s.running_term = false

instance (s : RtcState) : Decidable s.Renews := by
  unfold RtcState.Renews
  infer_instance

/-- Calls begin in such states only. -/
def RenewedRead (p : RtcState × RtcHistory) : RtcReadEvent → Prop
  | .read => p.1.Renews
  | _ => True

instance (p : RtcState × RtcHistory) (e : RtcReadEvent) : Decidable (RenewedRead p e) := by
  cases e <;> unfold RenewedRead <;> infer_instance

/-! ## What a call still waits for -/

/-- Without an interrupt since the call began there is a flag left to wait for. -/
def Pending (r : RtcReader) (flag : Bool) (delivered : ℕ) : Prop :=
  match r with
  | .idle => True
  | .waiting count i => delivered = 0 → i + flag.toNat < count
  | .clearing count i => delivered = 0 → i + 1 < count

/-- What steps that begin renewed calls only keep. -/
structure WaitsOk (p : RtcState × RtcHistory) : Prop where
  pending : ∀ t, Pending (p.1.reader t) (p.1.rtc_interrupt_occurred t) (p.2.delivered t)
  returned : Waited p

theorem Pending.interrupted (r : RtcReader) (flag : Bool) (n : ℕ) : Pending r flag (n + 1) := by
  cases r with
  | idle => trivial
  | waiting count i => exact fun h => absurd h (Nat.succ_ne_zero n)
  | clearing count i => exact fun h => absurd h (Nat.succ_ne_zero n)

/-- Past the `while`. -/
theorem Pending.enter {count i d : ℕ} (h : Pending (.waiting count i) true d) (flag : Bool) :
    Pending (.clearing count i) flag d := h

/-- Round the loop. -/
theorem Pending.clear {count i d : ℕ} {flag : Bool} (h : Pending (.clearing count i) flag d) :
    Pending (.waiting count (i + 1)) false d := h

namespace RtcState

variable {s s' : RtcState}

theorem lt_count_iff (s : RtcState) (hfreq : s.rtc_freq ≠ 0) (i : ℕ) :
    i < s.count ↔ (i + 1) * (s.rtc_freq * s.num_running) ≤ MAX_RTC_FREQ := by
  have hnum : 0 < s.num_running := by
    rw [num_running]
    omega
  rw [count, Nat.div_div_eq_div_mul, Nat.lt_iff_add_one_le,
    Nat.le_div_iff_mul_le (Nat.mul_pos (Nat.pos_of_ne_zero hfreq) hnum)]

/-- More flags to wait for than are set already. -/
theorem renews_iff (s : RtcState) (hfreq : s.rtc_freq ≠ 0) :
    s.Renews ↔ (s.rtc_interrupt_occurred s.running_term).toNat < s.count := by
  rw [s.lt_count_iff hfreq, Renews]
  cases s.rtc_interrupt_occurred s.running_term with
  | false =>
    simp only [Bool.toNat_false, Nat.zero_add, Nat.one_mul, and_true]
    omega
  | true => simp [two_mul]

end RtcState

/-- A step of the running process touches its own terminal's entries only. -/
theorem WaitsOk.of_running {p p' : RtcState × RtcHistory} (hok : WaitsOk p)
    (hother : ∀ t, t ≠ p.1.running_term → p'.1.reader t = p.1.reader t ∧
      p'.1.rtc_interrupt_occurred t = p.1.rtc_interrupt_occurred t ∧
      p'.2.delivered t = p.2.delivered t)
    (hrun : Pending (p'.1.reader p.1.running_term)
      (p'.1.rtc_interrupt_occurred p.1.running_term) (p'.2.delivered p.1.running_term))
    (hret : Waited p') : WaitsOk p' := by
  refine ⟨fun t => ?_, hret⟩
  by_cases ht : t = p.1.running_term
  · exact ht ▸ hrun
  · obtain ⟨hreader, hflag, hdel⟩ := hother t ht
    rw [hreader, hflag, hdel]
    exact hok.pending t

section
variable {s s' : RtcState} {h : RtcHistory}

/-- A call that begins. -/
theorem WaitsOk.read (hok : WaitsOk (s, h)) (hs : s.step .read = some s')
    (hrenews : s.Renews) : WaitsOk (s', noteInterrupts s .read h) := by
  obtain ⟨-, hfreq, rfl⟩ := RtcState.read_eq_some hs
  have hlt := (s.renews_iff hfreq).mp hrenews
  refine hok.of_running (fun t ht => ⟨?_, rfl, ?_⟩) ?_ hok.returned
  · exact Function.update_of_ne ht ..
  · exact Function.update_of_ne ht ..
  · simp only [RtcState.setReader, Function.update_self, Pending]
    omega

/-- A call that goes on. -/
theorem WaitsOk.readStep (hok : WaitsOk (s, h)) (hs : s.readStep = some s') :
    WaitsOk (s', noteInterrupts s .readStep h) := by
  have hrun := hok.pending s.running_term
  unfold RtcState.readStep at hs
  unfold noteInterrupts
  dsimp only at hrun ⊢
  cases hr : s.reader s.running_term with
  | idle =>
    rw [hr] at hs
    cases hs
  | waiting count i =>
    rw [hr] at hs hrun
    dsimp only at hs ⊢
    split_ifs at hs with hi hflag
    · -- the flag is the one it waits for
      cases hs
      rw [if_pos hi]
      refine hok.of_running (fun t ht => ⟨Function.update_of_ne ht .., rfl, rfl⟩) ?_ hok.returned
      rw [hflag] at hrun
      simp only [RtcState.setReader, Function.update_self]
      exact hrun.enter _
    · cases hs
      rw [if_pos hi]
      exact hok
    · -- nothing left to wait for, so there has been an interrupt
      cases hs
      rw [if_neg hi]
      refine hok.of_running (fun t ht => ⟨Function.update_of_ne ht .., rfl, rfl⟩) ?_ ?_
      · simp only [RtcState.setReader, Function.update_self, Pending]
      · intro n hn
        rcases List.mem_cons.mp hn with rfl | hn
        · by_contra hzero
          have hlt := hrun (Nat.eq_zero_of_not_pos hzero)
          omega
        · exact hok.returned n hn
  | clearing count i =>
    rw [hr] at hs hrun
    cases hs
    refine hok.of_running (fun t ht => ⟨Function.update_of_ne ht ..,
      Function.update_of_ne ht .., rfl⟩) ?_ hok.returned
    simp only [RtcState.setReader, RtcState.setFlag, Function.update_self]
    exact hrun.clear

end

theorem WaitsOk.step {p p' : RtcState × RtcHistory} {e : RtcReadEvent} (hok : WaitsOk p)
    (he : RenewedRead p e) (hs : rtcReads.step p e = some p') : WaitsOk p' := by
  obtain ⟨s, h⟩ := p
  obtain ⟨s', h'⟩ := p'
  obtain ⟨hstep, hnote⟩ := System.withHistory_step_iff.mp hs
  dsimp only at hstep hnote
  subst hnote
  cases e with
  | interrupt =>
    cases hstep
    exact ⟨fun t => Pending.interrupted .., hok.returned⟩
  | tick next =>
    obtain ⟨-, rfl⟩ := RtcState.tick_eq_some hstep
    exact ⟨hok.pending, hok.returned⟩
  | process t pid =>
    cases hstep
    refine ⟨fun t' => ?_, hok.returned⟩
    by_cases ht : t' = t
    · subst ht
      simp only [Function.update_self, Pending]
    · simp only [Function.update_of_ne ht]
      exact hok.pending t'
  | openRtc =>
    obtain ⟨-, rfl⟩ := RtcState.openRtc_eq_some hstep
    exact ⟨hok.pending, hok.returned⟩
  | write buf =>
    obtain ⟨-, hs'⟩ := RtcState.write_eq_some hstep
    rcases s.rtc_write_cases buf with hsame | ⟨rate, -, -, hset⟩
    · rw [hs', hsame]
      exact ⟨hok.pending, hok.returned⟩
    · rw [hs', hset]
      exact ⟨hok.pending, hok.returned⟩
  | read => exact hok.read hstep he
  | readStep => exact hok.readStep hstep

theorem rtcReads_waitsOk {p : RtcState × RtcHistory} (h : rtcReads.ReachableWhere RenewedRead p) :
    WaitsOk p := by
  refine h.invariant (fun p h0 => ?_) fun p e p' _ hok he hs => hok.step he hs
  obtain ⟨⟨-, -, hidle⟩, hinit⟩ := h0
  refine ⟨fun t => ?_, fun n hn => ?_⟩
  · rw [hidle t]
    trivial
  · rw [hinit] at hn
    cases hn

/-! ## Rates -/

/-- The rates `rtc_write` accepts. -/
def AcceptedRate (rtc_freq : ℕ) : Prop := MIN_RTC_FREQ ≤ rtc_freq ∧ rtc_freq ≤ MAX_RTC_FREQ

theorem accepted_min : AcceptedRate MIN_RTC_FREQ := ⟨le_rfl, by decide⟩

section
variable {s s' : RtcState}

/-- Setting a rate in range. -/
theorem RtcState.setFreq_rates (hs : ∀ t, AcceptedRate (s.term t).rtc_freq) {rate : ℕ}
    (hrate : AcceptedRate rate) (t : TermId) :
    AcceptedRate ((s.setFreq rate).term t).rtc_freq := by
  unfold RtcState.setFreq RtcState.modTerm
  dsimp only
  by_cases ht : t = s.running_term
  · subst ht
    rwa [Function.update_self]
  · rw [Function.update_of_ne ht]
    exact hs t

theorem RtcState.step_rates {e : RtcReadEvent} (hs : ∀ t, AcceptedRate (s.term t).rtc_freq)
    (h : s.step e = some s') (t : TermId) : AcceptedRate (s'.term t).rtc_freq := by
  cases e with
  | interrupt =>
    cases h
    exact hs t
  | tick next =>
    obtain ⟨-, rfl⟩ := RtcState.tick_eq_some h
    exact hs t
  | process t' pid =>
    cases h
    dsimp only [RtcState.modTerm]
    by_cases ht : t = t'
    · subst ht
      rw [Function.update_self]
      exact hs t
    · rw [Function.update_of_ne ht]
      exact hs t
  | openRtc =>
    obtain ⟨-, rfl⟩ := RtcState.openRtc_eq_some h
    exact RtcState.setFreq_rates hs accepted_min t
  | write buf =>
    obtain ⟨-, hs'⟩ := RtcState.write_eq_some h
    rcases s.rtc_write_cases buf with hsame | ⟨rate, hmin, hmax, hset⟩
    · rw [hs', hsame]
      exact hs t
    · rw [hs', hset]
      exact RtcState.setFreq_rates hs ⟨hmin, hmax⟩ t
  | read =>
    obtain ⟨-, -, rfl⟩ := RtcState.read_eq_some h
    exact hs t
  | readStep =>
    rw [(RtcState.readStep_term h).1]
    exact hs t

end

/-- Every rate is one that `rtc_write` accepts, so a call that begins does not fault. -/
theorem rtcReads_rates {p : RtcState × RtcHistory} (h : rtcReads.Reachable p) (t : TermId) :
    MIN_RTC_FREQ ≤ (p.1.term t).rtc_freq ∧ (p.1.term t).rtc_freq ≤ MAX_RTC_FREQ := by
  have hinv := h.invariant (P := fun p => ∀ t, AcceptedRate (p.1.term t).rtc_freq)
    (fun p h0 t => ?_) fun p e p' _ hok _ hs t => ?_
  · exact hinv t
  · rw [h0.1.1 t]
    exact ⟨by decide, le_rfl⟩
  · exact RtcState.step_rates hok (System.withHistory_step_iff.mp hs).1 t

/-! ## A call begun in a state -/

/-- However the run goes on, with no further call begun, calls return after an interrupt only. -/
def WaitsFrom (p : RtcState × RtcHistory) : Prop :=
  ∀ es q, RtcReadEvent.read ∉ es → rtcReads.runFrom p es = some q → Waited q

/-- A run without a new call begins renewed calls only. -/
theorem renewedRead_of_ne {p : RtcState × RtcHistory} {e : RtcReadEvent} (h : e ≠ .read) :
    RenewedRead p e := by
  cases e with
  | read => exact absurd rfl h
  | _ => trivial

theorem WaitsOk.waitsFrom {p : RtcState × RtcHistory} (hok : WaitsOk p) : WaitsFrom p := by
  intro es q hes hrun
  induction es generalizing p with
  | nil =>
    cases hrun
    exact hok.returned
  | cons e es ih =>
    rw [System.runFrom, Option.bind_eq_some_iff] at hrun
    obtain ⟨p₁, hstep, hrun⟩ := hrun
    rw [List.mem_cons, not_or] at hes
    exact ih (hok.step (renewedRead_of_ne (Ne.symm hes.1)) hstep) hes.2 hrun

section
variable {s : RtcState} {h : RtcHistory}

/-- A call that is through returns. -/
theorem readStep_returns {count i : ℕ} (hr : s.reader s.running_term = .waiting count i)
    (hi : ¬ i < count) :
    rtcReads.step (s, h) .readStep = some (s.setReader .idle,
      { h with returned := h.delivered s.running_term :: h.returned }) := by
  refine System.withHistory_step_iff.mpr ⟨?_, ?_⟩
  · show s.readStep = some (s.setReader .idle)
    rw [RtcState.readStep, hr]
    exact if_neg hi
  · show _ = noteInterrupts s .readStep h
    rw [noteInterrupts, hr]
    exact (if_neg hi).symm

/-- A call that finds its flag set takes it. -/
theorem readStep_enters {count i : ℕ} (hr : s.reader s.running_term = .waiting count i)
    (hi : i < count) (hflag : s.rtc_interrupt_occurred s.running_term = true) :
    rtcReads.step (s, h) .readStep = some (s.setReader (.clearing count i), h) := by
  refine System.withHistory_step_iff.mpr ⟨?_, ?_⟩
  · show s.readStep = some (s.setReader (.clearing count i))
    rw [RtcState.readStep, hr]
    dsimp only
    rw [if_pos hi, if_pos hflag]
  · show h = noteInterrupts s .readStep h
    rw [noteInterrupts, hr]
    exact (if_pos hi).symm

theorem readStep_clears {count i : ℕ} (hr : s.reader s.running_term = .clearing count i) :
    rtcReads.step (s, h) .readStep =
      some ((s.setReader (.waiting count (i + 1))).setFlag false, h) := by
  refine System.withHistory_step_iff.mpr ⟨?_, ?_⟩
  · show s.readStep = some ((s.setReader (.waiting count (i + 1))).setFlag false)
    rw [RtcState.readStep, hr]
  · show h = noteInterrupts s .readStep h
    rw [noteInterrupts, hr]

/-- A call with nothing to wait for. -/
theorem not_waitsFrom_of_zero (hr : s.reader s.running_term = .waiting 0 0)
    (hzero : h.delivered s.running_term = 0) : ¬ WaitsFrom (s, h) := by
  intro hwaits
  have hrun := hwaits [.readStep] _ (by simp)
    (by rw [System.runFrom, readStep_returns hr (lt_irrefl 0)]; rfl)
  have hpos := hrun _ (List.mem_cons_self ..)
  omega

/-- A call with one flag to wait for, set before it began. -/
theorem not_waitsFrom_of_one (hr : s.reader s.running_term = .waiting 1 0)
    (hflag : s.rtc_interrupt_occurred s.running_term = true)
    (hzero : h.delivered s.running_term = 0) : ¬ WaitsFrom (s, h) := by
  intro hwaits
  set s₁ := s.setReader (.clearing 1 0) with hs₁
  set s₂ := (s₁.setReader (.waiting 1 1)).setFlag false with hs₂
  have hr₁ : s₁.reader s₁.running_term = .clearing 1 0 := Function.update_self ..
  have hr₂ : s₂.reader s₂.running_term = .waiting 1 1 := Function.update_self ..
  have hrun := hwaits [.readStep, .readStep, .readStep] _ (by simp) (by
    rw [System.runFrom, readStep_enters hr one_pos hflag, Option.bind_some, System.runFrom,
      readStep_clears hr₁, Option.bind_some, System.runFrom, readStep_returns hr₂ (lt_irrefl 1)]
    rfl)
  have hpos := hrun _ (List.mem_cons_self ..)
  exact absurd hzero (Nat.pos_iff_ne_zero.mp hpos)

end

/-- A call begun in any other state may return without an interrupt. -/
theorem not_waitsFrom_of_not_renews {p p' : RtcState × RtcHistory}
    (hs : rtcReads.step p .read = some p') (hnot : ¬ p.1.Renews) : ¬ WaitsFrom p' := by
  obtain ⟨s, h⟩ := p
  obtain ⟨s', h'⟩ := p'
  obtain ⟨hstep, hnote⟩ := System.withHistory_step_iff.mp hs
  obtain ⟨-, hfreq, rfl⟩ := RtcState.read_eq_some hstep
  have hreader : (s.setReader (.waiting s.count 0)).reader
      (s.setReader (.waiting s.count 0)).running_term = .waiting s.count 0 :=
    Function.update_self ..
  have hzero : h'.delivered s.running_term = 0 := by
    rw [show h' = noteInterrupts s .read h from hnote]
    exact Function.update_self ..
  have hle : s.count ≤ (s.rtc_interrupt_occurred s.running_term).toNat :=
    Nat.le_of_not_lt fun hlt => hnot ((s.renews_iff hfreq).mpr hlt)
  rcases Nat.eq_zero_or_pos s.count with hnone | hone
  · rw [hnone] at hreader ⊢
    exact not_waitsFrom_of_zero hreader hzero
  · -- at most one, and the flag is set
    cases hflag : s.rtc_interrupt_occurred s.running_term with
    | false =>
      rw [hflag, Bool.toNat_false] at hle
      omega
    | true =>
      rw [hflag, Bool.toNat_true] at hle
      have hcount : s.count = 1 := by omega
      rw [hcount] at hreader ⊢
      exact not_waitsFrom_of_one hreader hflag hzero

/-- As long as every call begins with two flags to wait for, or with one that is clear, each
returns only after an interrupt delivered since it began; and a call begun otherwise may
return without one. -/
theorem rtc_read_waits_iff {p : RtcState × RtcHistory}
    (h : rtcReads.ReachableWhere RenewedRead p) :
    Waited p ∧ ∀ p', rtcReads.step p .read = some p' → (WaitsFrom p' ↔ p.1.Renews) := by
  have hok := rtcReads_waitsOk h
  refine ⟨hok.returned, fun p' hs => ⟨fun hwaits => ?_, fun hrenews => ?_⟩⟩
  · by_contra hnot
    exact not_waitsFrom_of_not_renews hs hnot hwaits
  · have hread : RenewedRead p .read := hrenews
    exact (hok.step hread hs).waitsFrom

/-! ## At 512 and 1024 Hz -/

/-- The terminals as `init_term` leaves them. -/
def rtcStart : RtcState where
  rtc_interrupt_occurred _ := false
  term t := { term_id := t, running_pid := none, ss0 := 0, esp0 := 0, rtc_freq := MAX_RTC_FREQ }
  running_term := 0
  reader _ := .idle

theorem rtcStart_init : rtcReads.init (rtcStart, RtcHistory.initial) :=
  ⟨⟨fun _ => rfl, fun _ => rfl, fun _ => rfl⟩, rfl⟩

/-- Set 512 Hz. -/
def write512 : RtcReadEvent := .write fun j => if j = 1 then 2 else 0

/-- At 512 Hz, with one terminal in use: the flag is set when the call begins, and the call
waits for another interrupt. -/
theorem rtc_read_waits_512 : ∃ p, rtcReads.ReachableWhere RenewedRead p ∧
    p.2.returned = [1] ∧ p.1.Renews ∧ Waited p ∧
      ∀ p', rtcReads.step p .read = some p' → (WaitsFrom p' ↔ p.1.Renews) := by
  have hrun : ((rtcReads.restrict RenewedRead).runFrom (rtcStart, RtcHistory.initial)
      [.process 0 (some 0), write512, .interrupt, .read, .readStep, .readStep, .readStep,
        .interrupt, .readStep, .readStep, .readStep]).any
      (fun p => decide (p.2.returned = [1] ∧ p.1.Renews)) = true := by decide +kernel
  obtain ⟨p, hreach, hreturned, hrenews⟩ :=
    System.ReachableWhere.exists_of_run rtcStart_init _ hrun
  obtain ⟨hwaited, hiff⟩ := rtc_read_waits_iff hreach
  exact ⟨p, hreach, hreturned, hrenews, hwaited, hiff⟩

/-- At 1024 Hz a call begun after an interrupt returns without another, and at 512 Hz one
begun with three terminals in use waits for none at all. -/
theorem rtc_read_returns_early :
    (∃ p, rtcReads.runFrom (rtcStart, RtcHistory.initial)
      [.process 0 (some 0), .interrupt, .read, .readStep, .readStep, .readStep] = some p ∧
        p.2.returned = [0]) ∧
    (∃ p, rtcReads.runFrom (rtcStart, RtcHistory.initial)
      [.process 0 (some 0), .process 1 (some 1), .process 2 (some 2), write512, .read,
        .readStep] = some p ∧ p.2.returned = [0]) ∧
    ¬ ∀ p, rtcReads.Reachable p → Waited p := by
  have hstale : (rtcReads.runFrom (rtcStart, RtcHistory.initial)
      [.process 0 (some 0), .interrupt, .read, .readStep, .readStep, .readStep]).any
      (fun p => decide (p.2.returned = [0])) = true := by decide +kernel
  have hcrowded : (rtcReads.runFrom (rtcStart, RtcHistory.initial)
      [.process 0 (some 0), .process 1 (some 1), .process 2 (some 2), write512, .read,
        .readStep]).any (fun p => decide (p.2.returned = [0])) = true := by decide +kernel
  rw [Option.any_eq_true] at hstale hcrowded
  obtain ⟨p, hp, hreturned⟩ := hstale
  obtain ⟨q, hq, hreturned'⟩ := hcrowded
  have hzero : p.2.returned = [0] := of_decide_eq_true hreturned
  refine ⟨⟨p, hp, hzero⟩, ⟨q, hq, of_decide_eq_true hreturned'⟩, fun h => ?_⟩
  have hpos := h p ((System.Reachable.init rtcStart_init).runFrom _ hp) 0
    (hzero ▸ List.mem_cons_self ..)
  exact absurd hpos (lt_irrefl 0)

end Kernel391
