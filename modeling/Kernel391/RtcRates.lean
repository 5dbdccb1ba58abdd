import Kernel391.Buffers

/-!
# The rate of the RTC

A process sets the rate of the RTC when it opens it and when it writes to it, and `rtc_read`
waits at that rate. The kernel keeps one rate for each terminal: the runs below note, besides
it, who set it. A read uses the rate last set by a process of the reader's terminal, and so the
reader's own as long as no other process of the terminal sets one (`rtc_rate_shared`).
-/

namespace Kernel391

open TransitionSystem

/-! ## Runs -/

/-- An operation of the kernel, or a read or a write through a descriptor. -/
inductive RtcEvent where
  | kernel (e : Event)
  | read (fd : ℤ) (buf : Word) (nbytes : ℤ)
  | write (fd : ℤ) (buf : Option Bytes) (nbytes : ℤ)

/-- `io` is there for what is typed and stored; writes to the RTC are events of their own. -/
def KeepsRate (k : Kernel) : Event → Prop
  | .io _ _ _ _ rtc_freq => rtc_freq = (k.term k.running_term).rtc_freq
  | _ => True

instance (k : Kernel) (e : Event) : Decidable (KeepsRate k e) := by
  cases e <;> unfold KeepsRate <;> infer_instance

def rtcStep (m : Machine) (k : Kernel) : RtcEvent → Option (Kernel × Outcome)
  | .kernel e => if KeepsRate k e then step m k e else none
  | .read fd buf nbytes => (read_func m fd buf nbytes k).map fun x => (x.1, .ret x.2.ret)
  | .write fd buf nbytes => (write_func fd buf nbytes k).map fun x => (x.1, .ret x.2)

/-- The process an event has started. -/
def newProcess (m : Machine) (k : Kernel) (e : RtcEvent) : Option Pid :=
  match rtcStep m k e with
  | some (k', .enterUser _) => some k'.cur_pid
  | _ => none

/-! ## Who sets the rate -/

/-- The word a process writes to the RTC. -/
def rateOf (buf : Bytes) : ℤ :=
  toInt32 ((buf 0).toNat + 2 ^ 8 * (buf 1).toNat + 2 ^ 16 * (buf 2).toNat
    + 2 ^ 24 * (buf 3).toNat)

/-- The rate by which `rtc_read` divides. -/
def rtc_rate (k : Kernel) : ℕ := (k.term k.running_term).rtc_freq

/-- The running process has the RTC open under this descriptor. -/
def DrivesRtc (k : Kernel) (fd : ℤ) : Prop :=
  ∃ i : Fd, fd = i.val ∧ ((k.pcb k.cur_pid).fd_table i).flags = true ∧
    ((k.pcb k.cur_pid).fd_table i).op_table_ptr = .rtc

instance (k : Kernel) (fd : ℤ) : Decidable (DrivesRtc k fd) := by
  unfold DrivesRtc
  infer_instance

/-- `open` returns a descriptor for the RTC. -/
def OpensRtc (m : Machine) (filename : Option Bytes) (k : Kernel) : Prop :=
  ∃ i : Fd, 2 ≤ i.val ∧ (open_func m filename k).2 = i.val ∧
    (((open_func m filename k).1.pcb k.cur_pid).fd_table i).op_table_ptr = .rtc

instance (m : Machine) (filename : Option Bytes) (k : Kernel) :
    Decidable (OpensRtc m filename k) := by
  unfold OpensRtc
  infer_instance

/-- The rate the running process sets, if any: 2 Hz with `open`, and any rate in range with a
write. -/
def setRate (m : Machine) (k : Kernel) : RtcEvent → Option ℕ
  | .kernel (.open_file filename) => if OpensRtc m filename k then some MIN_RTC_FREQ else none
  | .write fd (some buf) _ =>
    if DrivesRtc k fd ∧ (MIN_RTC_FREQ : ℤ) ≤ rateOf buf ∧ rateOf buf ≤ MAX_RTC_FREQ then
      some (rateOf buf).toNat
    else none
  | _ => none

/-- What has been set by whom. -/
structure Rates where
  /-- The rate last set by a process of the terminal. -/
  last : TermId → ℕ
  /-- That process, as long as its number has not been given to another one. -/
  setter : TermId → Option Pid
  /-- The rate last set by the process. -/
  own : Pid → Option ℕ

namespace Rates

/-- Nothing has been set. -/
def initial : Rates where
  last _ := MAX_RTC_FREQ
  setter _ := none
  own _ := none

/-- Process `p` of terminal `t` sets a rate. -/
def set (h : Rates) (t : TermId) (p : Pid) (rate : ℕ) : Rates where
  last := Function.update h.last t rate
  setter := Function.update h.setter t (some p)
  own := Function.update h.own p (some rate)

/-- Number `p` is given to a new process. -/
def start (h : Rates) (p : Pid) : Rates where
  last := h.last
  setter t := if h.setter t = some p then none else h.setter t
  own := Function.update h.own p none

end Rates

def noteRate (m : Machine) (k : Kernel) (e : RtcEvent) (h : Rates) : Rates :=
  match setRate m k e with
  | some rate => h.set (k.pcb k.cur_pid).term_id k.cur_pid rate
  | none =>
    match newProcess m k e with
    | some p => h.start p
    | none => h

def rtcSystem (m : Machine) : System (Kernel × Rates) RtcEvent :=
  System.withHistory
    { init := fun k => ∃ mem, Started m mem k
      step := fun k e => (rtcStep m k e).map Prod.fst }
    (fun _ h => h = Rates.initial) (noteRate m)

/-! ## What the operations do to the rates -/

section
variable {m : Machine} {k k' : Kernel} {out : Outcome}

theorem execute_func_rates {caller : Caller} {command : Bytes} {fr : Frame}
    (h : execute_func m caller command fr k = some (k', out)) (t : TermId) :
    (k'.term t).rtc_freq = (k.term t).rtc_freq := by
  rcases execute_func_cases h with ⟨fs, -, -, rfl⟩ | ⟨x, -, -, -, console, -, rfl⟩ |
    ⟨x, p, -, -, -, -, frame, console, -, rfl⟩
  · rfl
  · rfl
  · exact update_field TermInfo.rtc_freq t

theorem halt_func_rates {status : UInt8} {fr frShell : Frame}
    (h : halt_func m status fr frShell k = some (k', out)) (t : TermId) :
    (k'.term t).rtc_freq = (k.term t).rtc_freq := by
  obtain ⟨victim, u, k₁, htarget, -, hend⟩ := halt_func_cases h
  have hfound : (k₁.term t).rtc_freq = (k.term t).rtc_freq := by
    obtain ⟨console, -, ⟨-, -, -, -, rfl⟩ | ⟨-, -, -, -, running, -, rfl⟩ | ⟨-, -, -, rfl⟩⟩ :=
      halt_target_cases htarget
    · rfl
    · exact update_field TermInfo.rtc_freq t
    · rfl
  rcases hend with ⟨parent, -, heq⟩ | ⟨-, e, -, hex⟩
  · rw [(Prod.mk.inj heq).1, ← hfound]
    exact update_field TermInfo.rtc_freq t
  · rw [execute_func_rates hex, ← hfound]
    exact update_field TermInfo.rtc_freq t

theorem launch_term_rates {u : TermId} {fr frShell : Frame}
    (h : launch_term m u fr frShell k = some (k', out)) (t : TermId) :
    (k'.term t).rtc_freq = (k.term t).rtc_freq := by
  rcases launch_term_cases h with ⟨-, rfl, -⟩ | ⟨-, -, old, -, r, hex, -⟩ | ⟨-, -, rfl, -⟩
  · rfl
  · exact execute_func_rates hex t
  · rfl

theorem tick_rates {fr : Frame} (hid : ∀ t, (k.term t).term_id = t)
    (h : pit_interrupt_handler m fr k = some k') (t : TermId) :
    (k'.term t).rtc_freq = (k.term t).rtc_freq := by
  rcases pit_interrupt_handler_cases hid h with ⟨-, -, rfl⟩ | ⟨-, u, p, curr, -, -, rfl⟩
  · rfl
  · exact update_field TermInfo.rtc_freq t

theorem close_func_rates {fd r : ℤ} (h : close_func fd k = some (k', r)) :
    k'.term = k.term := by
  rcases close_func_cases h with ⟨rfl, -⟩ | ⟨i, -, -, -, rfl⟩
  · rfl
  · rfl

theorem vidmap_func_rates {ptr : Word} {r : ℤ} (h : vidmap_func m ptr k = some (k', r)) :
    k'.term = k.term := by
  unfold vidmap_func at h
  split_ifs at h with hptr
  · rw [Option.some.injEq, Prod.mk.injEq] at h
    rw [← h.1]
  · rw [Option.bind_eq_bind, Option.bind_eq_some_iff] at h
    obtain ⟨k₁, hstore, h⟩ := h
    obtain ⟨paging, console, frame, -, rfl⟩ := storeThrough_memory hstore
    rw [Option.some.injEq, Prod.mk.injEq] at h
    rw [← h.1]
    rfl

theorem io_step_rates {console : Console} {dir_number : ℕ} {page : Bytes} {position : Fd → ℕ}
    {rtc_freq : ℕ} (hkeep : rtc_freq = (k.term k.running_term).rtc_freq)
    (h : io_step console dir_number page position rtc_freq k = some k') (t : TermId) :
    (k'.term t).rtc_freq = (k.term t).rtc_freq := by
  unfold io_step at h
  split_ifs at h
  rw [Option.some.injEq] at h
  rw [← h]
  exact update_field TermInfo.rtc_freq t hkeep

/-- What is opened can be told from the descriptor filled in. -/
theorem opensRtc_iff {filename : Option Bytes} :
    OpensRtc m filename k ↔ ∃ d fd, Opens m filename k d fd ∧ d.file_type = 0 := by
  cases hopen : open_func m filename k with
  | mk k₁ r =>
    unfold OpensRtc
    rw [hopen]
    dsimp only
    constructor
    · rintro ⟨i, hi, hr, htable⟩
      rcases open_func_cases hopen with ⟨⟨hfail, -⟩, -⟩ | ⟨-, hconsole, -⟩ |
        ⟨d, fd, hopens, -, hpcb, -, hret⟩
      · omega
      · omega
      · refine ⟨d, fd, hopens, ?_⟩
        by_contra h0
        split_ifs at hret with htype
        · have hfd : i = fd := Fin.ext (by omega)
          rw [hpcb, hfd, setDesc_fd_table, if_pos ⟨rfl, rfl⟩] at htable
          unfold openedDesc at htable
          dsimp only at htable
          rw [if_neg h0] at htable
          split_ifs at htable with h1 h2
          omega
        · omega
    · rintro ⟨d, fd, hopens, h0⟩
      obtain ⟨hpcb, hret⟩ := open_func_opens hopens hopen
      rw [h0, if_pos (by decide)] at hret
      refine ⟨fd, hopens.free.1, hret, ?_⟩
      rw [hpcb, setDesc_fd_table, if_pos ⟨rfl, rfl⟩]
      unfold openedDesc
      dsimp only
      rw [if_pos h0]

/-- `open` sets the rate when it opens the RTC, and not otherwise. -/
theorem open_func_rates {filename : Option Bytes} : (open_func m filename k).1.term =
    if OpensRtc m filename k
      then (k.modTerm k.running_term fun i => { i with rtc_freq := MIN_RTC_FREQ }).term
    else k.term := by
  cases hopen : open_func m filename k with
  | mk k₁ r =>
    -- a descriptor for the RTC is not one of the console's
    have hrtc : OpensRtc m filename k → 2 ≤ r := by
      rintro ⟨i, hi, hr, -⟩
      rw [hopen] at hr
      dsimp only at hr
      omega
    rcases open_func_cases hopen with ⟨⟨hr, -, -, hterm⟩, -⟩ | ⟨-, hr, -, hterm, -⟩ |
      ⟨d, fd, hopens, -, -, hterm, -⟩
    · rw [if_neg fun h => absurd (hrtc h) (by omega)]
      exact hterm
    · rw [if_neg fun h => absurd (hrtc h) (by omega)]
      exact hterm
    · by_cases h0 : d.file_type = 0
      · rw [if_pos (opensRtc_iff.mpr ⟨d, fd, hopens, h0⟩)]
        rw [if_pos h0] at hterm
        exact hterm
      · rw [if_neg h0] at hterm
        rw [if_neg]
        · exact hterm
        · intro h
          obtain ⟨d', fd', hopens', h0'⟩ := opensRtc_iff.mp h
          rw [(hopens.unique hopens').1] at h0
          exact h0 h0'

/-- Reads set no rate, and start and end no process. -/
theorem read_func_keeps {fd nbytes : ℤ} {buf : Word} {r : ReadResult}
    (h : read_func m fd buf nbytes k = some (k', r)) :
    k'.term = k.term ∧ k'.links = k.links := by
  rcases read_func_cases h with ⟨rfl, -⟩ | ⟨i, -, -, -, hread⟩
  · exact ⟨rfl, rfl⟩
  · rcases OpTable.read_cases hread with ⟨-, -, rfl, -⟩ | ⟨-, fs, -, rfl⟩ | ⟨-, hfile⟩ | ⟨-, hin⟩ |
      ⟨-, rfl, -⟩
    · exact ⟨rfl, rfl⟩
    · exact ⟨rfl, rfl⟩
    · rw [show k' = (file_read m i nbytes k).1 by rw [hfile]]
      exact ⟨rfl, links_congr rfl rfl rfl (pcb_links_update rfl rfl rfl) fun _ => ⟨rfl, rfl⟩⟩
    · obtain ⟨-, ⟨console, rfl⟩, -⟩ := terminal_read_eq hin
      exact ⟨rfl, rfl⟩
    · exact ⟨rfl, rfl⟩

/-- The terminals' records after the running one's rate has been set, or not. -/
def setFreq (k : Kernel) (rate : Option ℕ) : TermId → TermInfo :=
  rate.elim k.term fun r => (k.modTerm k.running_term fun i => { i with rtc_freq := r }).term

/-- Every way `write` ends: it fails early, or the driver of a descriptor in use is called. -/
theorem write_func_cases {fd nbytes r : ℤ} {buf : Option Bytes}
    (h : write_func fd buf nbytes k = some (k', r)) :
    (k' = k.cli ∧ (buf = none ∨
      ∀ i : Fd, fd = i.val → ((k.pcb k.cur_pid).fd_table i).flags = false)) ∨
    ∃ (i : Fd) (b : Bytes) (k₁ : Kernel), fd = i.val ∧ buf = some b ∧
      ((k.pcb k.cur_pid).fd_table i).flags = true ∧
      ((k.pcb k.cur_pid).fd_table i).op_table_ptr.write b nbytes k.cli = some (k₁, r) ∧
      k' = k₁.sti := by
  unfold write_func at h
  cases buf with
  | none =>
    rw [Option.some.injEq, Prod.mk.injEq] at h
    exact Or.inl ⟨h.1.symm, Or.inl rfl⟩
  | some b =>
    dsimp only at h
    by_cases hfd : fd < 0 ∨ fd > MAX_FILES - 1
    · rw [dif_pos hfd, Option.some.injEq, Prod.mk.injEq] at h
      refine Or.inl ⟨h.1.symm, Or.inr fun i hi => ?_⟩
      have hlt := i.isLt
      simp only [MAX_FILES] at hfd hlt
      omega
    · rw [dif_neg hfd] at h
      have hlt : fd.toNat < MAX_FILES := by
        simp only [MAX_FILES] at hfd ⊢
        omega
      obtain ⟨i, rfl⟩ : ∃ i : Fd, fd = i.val := ⟨⟨fd.toNat, hlt⟩, by show fd = fd.toNat; omega⟩
      have hi : (⟨(i.val : ℤ).toNat, by simp⟩ : Fd) = i := by simp
      simp only [hi] at h
      split_ifs at h with hflag
      · rw [Option.some.injEq, Prod.mk.injEq] at h
        refine Or.inl ⟨h.1.symm, Or.inr fun j hj => ?_⟩
        rw [show j = i from Fin.ext (by omega)]
        exact hflag
      · rw [Option.map_eq_some_iff] at h
        obtain ⟨⟨k₁, r'⟩, hwrite, heq⟩ := h
        rw [Prod.mk.injEq] at heq
        obtain ⟨rfl, rfl⟩ := heq
        refine Or.inr ⟨i, b, k₁, rfl, rfl, ?_, hwrite, rfl⟩
        exact (Bool.not_eq_false _).mp hflag

/-- The driver accepts what `setRate` notes. -/
theorem rtc_write_eq (buf : Bytes) :
    (rtc_write buf k).1 =
      if (MIN_RTC_FREQ : ℤ) ≤ rateOf buf ∧ rateOf buf ≤ MAX_RTC_FREQ
        then k.modTerm k.running_term fun i => { i with rtc_freq := (rateOf buf).toNat }
      else k := by
  have hwrite : rtc_write buf k = if rateOf buf < MIN_RTC_FREQ ∨ rateOf buf > MAX_RTC_FREQ
      then (k, -1)
      else (k.modTerm k.running_term fun i => { i with rtc_freq := (rateOf buf).toNat }, 4) := by
    rw [rtc_write, rateOf]
  rw [hwrite]
  by_cases hrange : (MIN_RTC_FREQ : ℤ) ≤ rateOf buf ∧ rateOf buf ≤ MAX_RTC_FREQ
  · rw [if_pos hrange, if_neg]
    omega
  · rw [if_neg hrange, if_pos]
    omega

/-- The driver that answers a write: that of the RTC, or one that sets no rate. -/
theorem OpTable.write_cases {table : OpTable} {buf : Bytes} {nbytes r : ℤ}
    (h : table.write buf nbytes k = some (k', r)) :
    (table = .rtc ∧ k' = (rtc_write buf k).1) ∨
      table ≠ .rtc ∧ ∃ console, k' = { k with console := console } := by
  cases table with
  | null => cases h
  | rtc => exact Or.inl ⟨rfl, (congrArg Prod.fst (Option.some.inj h)).symm⟩
  | dir =>
    have hk : k = k' := congrArg Prod.fst (Option.some.inj h)
    exact Or.inr ⟨by simp, k.console, hk ▸ rfl⟩
  | file =>
    have hk : k = k' := congrArg Prod.fst (Option.some.inj h)
    exact Or.inr ⟨by simp, k.console, hk ▸ rfl⟩
  | stdin =>
    have hk : k = k' := congrArg Prod.fst (Option.some.inj h)
    exact Or.inr ⟨by simp, k.console, hk ▸ rfl⟩
  | stdout => exact Or.inr ⟨by simp, _, (congrArg Prod.fst (Option.some.inj h)).symm⟩

theorem drivesRtc_iff {i : Fd} (hflag : ((k.pcb k.cur_pid).fd_table i).flags = true) :
    DrivesRtc k i.val ↔ ((k.pcb k.cur_pid).fd_table i).op_table_ptr = .rtc := by
  constructor
  · rintro ⟨j, hj, -, htable⟩
    rw [show j = i from Fin.ext (by omega)] at htable
    exact htable
  · intro htable
    exact ⟨i, rfl, hflag, htable⟩

theorem setRate_eq_none {fd nbytes : ℤ} {buf : Option Bytes} (h : ¬ DrivesRtc k fd) :
    setRate m k (.write fd buf nbytes) = none := by
  cases buf with
  | none => rfl
  | some b => exact if_neg fun hset => h hset.1

/-- The driver of the RTC sets the rate that is noted. -/
theorem rtc_write_sets {fd : ℤ} (buf : Bytes) (nbytes : ℤ) (h : DrivesRtc k fd) :
    (rtc_write buf k.cli).1 =
      { k.cli with term := setFreq k (setRate m k (.write fd (some buf) nbytes)) } := by
  rw [rtc_write_eq]
  unfold setRate
  dsimp only
  by_cases hrange : (MIN_RTC_FREQ : ℤ) ≤ rateOf buf ∧ rateOf buf ≤ MAX_RTC_FREQ
  · rw [if_pos hrange, if_pos ⟨h, hrange⟩]
    rfl
  · rw [if_neg hrange, if_neg fun hset => hrange hset.2]
    rfl

/-- Writes set the rate through a descriptor for the RTC, and write to the screen. -/
theorem write_func_effect {fd nbytes r : ℤ} {buf : Option Bytes}
    (h : write_func fd buf nbytes k = some (k', r)) : ∃ console intf,
      k' = { k with
        term := setFreq k (setRate m k (.write fd buf nbytes))
        console := console
        intf := intf } := by
  rcases write_func_cases h with ⟨rfl, rfl | hfree⟩ | ⟨i, b, k₁, rfl, rfl, hflag, hwrite, rfl⟩
  · exact ⟨k.console, false, rfl⟩
  · have hunused : ¬ DrivesRtc k fd := by
      rintro ⟨i, hi, hflag, -⟩
      rw [hfree i hi] at hflag
      cases hflag
    rw [setRate_eq_none hunused]
    exact ⟨k.console, false, rfl⟩
  · rcases OpTable.write_cases hwrite with ⟨htable, hk₁⟩ | ⟨htable, console, hk₁⟩
    · rw [hk₁, rtc_write_sets (m := m) b nbytes ((drivesRtc_iff hflag).mpr htable)]
      exact ⟨k.console, true, rfl⟩
    · rw [hk₁, setRate_eq_none (mt (drivesRtc_iff hflag).mp htable)]
      exact ⟨console, true, rfl⟩

/-- The rates after a step are those before, but for the rate it sets for the running
terminal. -/
theorem rtcStep_rates {e : RtcEvent} (hid : ∀ t, (k.term t).term_id = t)
    (h : rtcStep m k e = some (k', out)) (t : TermId) :
    (k'.term t).rtc_freq = (setFreq k (setRate m k e) t).rtc_freq := by
  cases e with
  | kernel e =>
    rw [rtcStep] at h
    split_ifs at h with hkeep
    cases e with
    | execute command fr => exact execute_func_rates h t
    | halt status fr frShell => exact halt_func_rates h t
    | launch_term u fr frShell => exact launch_term_rates h t
    | tick fr => exact tick_rates hid (step_tick h).1 t
    | open_file filename =>
      rw [step, Option.some.injEq, Prod.mk.injEq] at h
      rw [← h.1, open_func_rates]
      unfold setRate
      dsimp only
      split_ifs
      · rfl
      · rfl
    | close fd =>
      obtain ⟨r, hclose, -⟩ := step_close h
      rw [close_func_rates hclose]
      rfl
    | vidmap ptr =>
      obtain ⟨r, hvid, -⟩ := step_vidmap h
      rw [vidmap_func_rates hvid]
      rfl
    | io console dir_number page position rtc_freq =>
      exact io_step_rates hkeep (step_io h).1 t
  | read fd buf nbytes =>
    rw [rtcStep, Option.map_eq_some_iff] at h
    obtain ⟨⟨k₁, r⟩, hread, heq⟩ := h
    rw [Prod.mk.injEq] at heq
    rw [← heq.1, (read_func_keeps hread).1]
    rfl
  | write fd buf nbytes =>
    rw [rtcStep, Option.map_eq_some_iff] at h
    obtain ⟨⟨k₁, r⟩, hwrite, heq⟩ := h
    rw [Prod.mk.injEq] at heq
    obtain ⟨console, intf, hk₁⟩ := write_func_effect (m := m) hwrite
    rw [← heq.1, hk₁]

theorem setFreq_of_ne {rate : Option ℕ} {t : TermId} (ht : t ≠ k.running_term) :
    (setFreq k rate t).rtc_freq = (k.term t).rtc_freq := by
  cases rate with
  | none => rfl
  | some r =>
    show ((k.modTerm k.running_term fun i => { i with rtc_freq := r }).term t).rtc_freq = _
    rw [modTerm_term_of_ne _ _ _ _ ht]

/-! ## Processes and their terminals -/

/-- Every process stays attached to its terminal, but for one that has just been started. -/
def KeepsTerms (k k' : Kernel) (out : Outcome) : Prop :=
  ∀ q, (k'.pcb q).term_id = (k.pcb q).term_id ∨ (∃ e, out = .enterUser e) ∧ q = k'.cur_pid

theorem KeepsTerms.of_links (h : k'.links = k.links) : KeepsTerms k k' out := fun q =>
  Or.inl (congrFun (congrArg Links.term_id h) q)

theorem execute_func_keepsTerms {caller : Caller} {command : Bytes} {fr : Frame}
    (h : execute_func m caller command fr k = some (k', out)) : KeepsTerms k k' out := by
  rcases execute_func_links h with ⟨hsame, -⟩ | ⟨p, e, -, hout, hattach⟩
  · exact KeepsTerms.of_links hsame
  · intro q
    by_cases hq : q = p
    · exact Or.inr ⟨⟨e, hout⟩, hq.trans (congrArg Links.cur_pid hattach).symm⟩
    · refine Or.inl ((congrFun (congrArg Links.term_id hattach) q).trans ?_)
      exact Function.update_of_ne hq ..

theorem halt_func_keepsTerms {status : UInt8} {fr frShell : Frame}
    (hterm : (k.pcb k.cur_pid).term_id = k.running_term)
    (h : halt_func m status fr frShell k = some (k', out)) : KeepsTerms k k' out := by
  obtain ⟨victim, t, k₁, htarget, -, hend⟩ := halt_func_cases h
  have hreleased : ∀ q, ((released victim k₁).pcb q).term_id = (k.pcb q).term_id := fun q =>
    congrFun (congrArg Links.term_id (released_target_links (k := k.cli) hterm htarget)) q
  rcases hend with ⟨parent, -, heq⟩ | ⟨-, e, hout, hex⟩
  · intro q
    rw [(Prod.mk.inj heq).1]
    exact Or.inl (hreleased q)
  · intro q
    rw [hout, ← hreleased q]
    exact execute_func_keepsTerms hex q

theorem launch_term_keepsTerms {t : TermId} {fr frShell : Frame}
    (h : launch_term m t fr frShell k = some (k', out)) : KeepsTerms k k' out := by
  rcases launch_term_cases h with ⟨-, rfl, -⟩ | ⟨-, -, old, -, r, hex, hout⟩ | ⟨-, -, rfl, -⟩
  · exact KeepsTerms.of_links rfl
  · intro q
    have hopening : ((opening t old fr k).pcb q).term_id = (k.pcb q).term_id :=
      congrFun (congrArg Links.term_id (links_opening t old fr k)) q
    rw [← hopening]
    rcases execute_func_keepsTerms hex q with hsame | ⟨⟨e, hr⟩, hq⟩
    · exact Or.inl hsame
    · rcases hout with ⟨e', -, hout⟩ | ⟨hne, -⟩
      · exact Or.inr ⟨⟨e', hout⟩, hq⟩
      · exact absurd hr (hne e)
  · exact KeepsTerms.of_links rfl

theorem step_keepsTerms {F : Forest TermId Pid} {e : Event} (hF : Refines k.links F)
    (h : step m k e = some (k', out)) : KeepsTerms k k' out := by
  rcases step_quiet h with ⟨command, fr, rfl⟩ | ⟨status, fr, frShell, rfl⟩ |
    ⟨t, fr, frShell, rfl⟩ | ⟨fr, rfl⟩ | ⟨hquiet, -⟩
  · exact execute_func_keepsTerms h
  · exact halt_func_keepsTerms hF.cur_term h
  · exact launch_term_keepsTerms h
  · rcases pit_interrupt_handler_cases hF.stacked.number (step_tick h).1 with ⟨-, -, rfl⟩ |
      ⟨-, t, p, curr, -, -, rfl⟩
    · exact KeepsTerms.of_links rfl
    · exact fun q => Or.inl (congrFun (congrArg Links.term_id (links_switched m t p curr fr k)) q)
  · exact KeepsTerms.of_links hquiet.links_eq

/-- Nor do writes. -/
theorem write_func_links (m : Machine) {fd nbytes r : ℤ} {buf : Option Bytes}
    (h : write_func fd buf nbytes k = some (k', r)) : k'.links = k.links := by
  obtain ⟨console, intf, rfl⟩ := write_func_effect (m := m) h
  refine links_congr rfl rfl rfl (fun _ => ⟨rfl, rfl, rfl⟩) fun t => ?_
  show (setFreq k (setRate m k (.write fd buf nbytes)) t).running_pid = _ ∧
    (setFreq k (setRate m k (.write fd buf nbytes)) t).term_id = _
  cases setRate m k (.write fd buf nbytes) with
  | none => exact ⟨rfl, rfl⟩
  | some rate => exact ⟨update_field TermInfo.running_pid t, update_field TermInfo.term_id t⟩

/-- A step keeps the forest of processes and their terminals. -/
theorem rtcStep_keeps {F : Forest TermId Pid} {e : RtcEvent} (hF : Refines k.links F)
    (h : rtcStep m k e = some (k', out)) :
    (∃ F', Refines k'.links F') ∧ KeepsTerms k k' out := by
  have hsame : k'.links = k.links → (∃ F', Refines k'.links F') ∧ KeepsTerms k k' out :=
    fun hlinks => ⟨⟨F, hlinks ▸ hF⟩, KeepsTerms.of_links hlinks⟩
  cases e with
  | kernel e =>
    rw [rtcStep] at h
    split_ifs at h
    obtain ⟨F', -, hF'⟩ := step_refines hF h
    exact ⟨⟨F', hF'⟩, step_keepsTerms hF h⟩
  | read fd buf nbytes =>
    rw [rtcStep, Option.map_eq_some_iff] at h
    obtain ⟨⟨k₁, r⟩, hread, heq⟩ := h
    rw [Prod.mk.injEq] at heq
    exact hsame (heq.1 ▸ (read_func_keeps hread).2)
  | write fd buf nbytes =>
    rw [rtcStep, Option.map_eq_some_iff] at h
    obtain ⟨⟨k₁, r⟩, hwrite, heq⟩ := h
    rw [Prod.mk.injEq] at heq
    exact hsame (heq.1 ▸ write_func_links m hwrite)

/-- The steps that set a rate return to their caller. -/
theorem ret_of_setRate {e : RtcEvent} {rate : ℕ} (hrate : setRate m k e = some rate)
    (h : rtcStep m k e = some (k', out)) : ∃ v, out = .ret v := by
  cases e with
  | kernel e =>
    cases e with
    | open_file filename =>
      rw [rtcStep] at h
      split_ifs at h
      rw [step, Option.some.injEq, Prod.mk.injEq] at h
      exact ⟨_, h.2.symm⟩
    | _ => cases hrate
  | read fd buf nbytes => cases hrate
  | write fd buf nbytes =>
    rw [rtcStep, Option.map_eq_some_iff] at h
    obtain ⟨⟨k₁, r⟩, -, heq⟩ := h
    exact ⟨_, (Prod.mk.inj heq).2.symm⟩

/-! ## The notes are right -/

/-- The rates are those last set, a terminal's setter is attached to it, and it has set no other
rate since. -/
structure RatesOk (k : Kernel) (h : Rates) : Prop where
  last : ∀ t, (k.term t).rtc_freq = h.last t
  own : ∀ t p, h.setter t = some p → h.own p = some (h.last t)
  attached : ∀ t p, h.setter t = some p → (k.pcb p).term_id = t

namespace RatesOk

variable {h : Rates}

/-- The running process sets a rate. -/
theorem set {rate : ℕ} (hok : RatesOk k h) {t : TermId} {p : Pid} (hp : (k.pcb p).term_id = t)
    (hrates : ∀ u, (k'.term u).rtc_freq = if u = t then rate else (k.term u).rtc_freq)
    (hterms : ∀ q, (k'.pcb q).term_id = (k.pcb q).term_id) : RatesOk k' (h.set t p rate) := by
  refine ⟨fun u => ?_, fun u q hq => ?_, fun u q hq => ?_⟩
  · rw [hrates, hok.last]
    exact (Function.update_apply ..).symm
  · show Function.update h.own p (some rate) q = some (Function.update h.last t rate u)
    have hset : Function.update h.setter t (some p) u = some q := hq
    by_cases hu : u = t
    · rw [hu, Function.update_self] at hset ⊢
      rw [Option.some.inj hset, Function.update_self]
    · -- the setter of another terminal is another process
      rw [Function.update_of_ne hu] at hset
      have hqp : q ≠ p := by
        intro hqp
        have hattached := hok.attached u q hset
        rw [hqp, hp] at hattached
        exact hu hattached.symm
      rw [Function.update_of_ne hqp, Function.update_of_ne hu]
      exact hok.own u q hset
  · rw [hterms]
    have hset : Function.update h.setter t (some p) u = some q := hq
    by_cases hu : u = t
    · rw [hu, Function.update_self] at hset
      rw [← Option.some.inj hset, hu]
      exact hp
    · rw [Function.update_of_ne hu] at hset
      exact hok.attached u q hset

/-- Process `p` starts. -/
theorem start (hok : RatesOk k h) {p : Pid}
    (hrates : ∀ u, (k'.term u).rtc_freq = (k.term u).rtc_freq)
    (hterms : ∀ q, q ≠ p → (k'.pcb q).term_id = (k.pcb q).term_id) : RatesOk k' (h.start p) := by
  have hother : ∀ u q, (h.start p).setter u = some q → h.setter u = some q ∧ q ≠ p := by
    intro u q hq
    have hset : (if h.setter u = some p then none else h.setter u) = some q := hq
    split_ifs at hset with hp
    exact ⟨hset, fun hqp => hp (hqp ▸ hset)⟩
  refine ⟨fun u => (hrates u).trans (hok.last u), fun u q hq => ?_, fun u q hq => ?_⟩
  · obtain ⟨hset, hne⟩ := hother u q hq
    show Function.update h.own p none q = some (h.last u)
    rw [Function.update_of_ne hne]
    exact hok.own u q hset
  · obtain ⟨hset, hne⟩ := hother u q hq
    rw [hterms q hne]
    exact hok.attached u q hset

/-- Nothing is set and nobody starts. -/
theorem stay (hok : RatesOk k h) (hrates : ∀ u, (k'.term u).rtc_freq = (k.term u).rtc_freq)
    (hterms : ∀ q, (k'.pcb q).term_id = (k.pcb q).term_id) : RatesOk k' h := by
  refine ⟨fun u => (hrates u).trans (hok.last u), hok.own, fun u q hq => ?_⟩
  rw [hterms]
  exact hok.attached u q hq

/-- One step. -/
theorem step {F : Forest TermId Pid} {e : RtcEvent} (hok : RatesOk k h) (hF : Refines k.links F)
    (hs : rtcStep m k e = some (k', out)) : RatesOk k' (noteRate m k e h) := by
  have hrates := rtcStep_rates hF.stacked.number hs
  have hterms := (rtcStep_keeps hF hs).2
  have hown : (k.pcb k.cur_pid).term_id = k.running_term := hF.cur_term
  unfold noteRate
  cases hrate : setRate m k e with
  | some rate =>
    rw [hrate] at hrates
    refine hok.set rfl (fun u => ?_) fun q => ?_
    · rw [hrates, hown]
      by_cases hu : u = k.running_term
      · rw [if_pos hu, hu]
        show ((k.modTerm k.running_term fun i => { i with rtc_freq := rate }).term _).rtc_freq = _
        rw [modTerm_term_self]
      · rw [if_neg hu]
        exact setFreq_of_ne hu
    · obtain ⟨v, hout⟩ := ret_of_setRate hrate hs
      rcases hterms q with hsame | ⟨⟨e', henter⟩, -⟩
      · exact hsame
      · rw [hout] at henter
        cases henter
  | none =>
    rw [hrate] at hrates
    unfold newProcess
    rw [hs]
    cases out with
    | enterUser e' =>
      refine hok.start hrates fun q hq => ?_
      exact (hterms q).resolve_right fun hcur => hq hcur.2
    | ret v =>
      refine hok.stay hrates fun q => ?_
      exact (hterms q).resolve_right (by simp)
    | resume caller esp ebp eax =>
      refine hok.stay hrates fun q => ?_
      exact (hterms q).resolve_right (by simp)

end RatesOk

/-- At the start no rate has been set. -/
theorem Started.ratesOk {mem : BootMemory} (h : Started m mem k) : RatesOk k Rates.initial := by
  obtain ⟨fr, e, hex⟩ := h
  refine ⟨fun t => ?_, fun t p hp => ?_, fun t p hp => ?_⟩
  · rw [execute_func_rates hex]
    rfl
  · cases hp
  · cases hp

/-- In every run the notes are right. -/
theorem rtcSystem_ok {p : Kernel × Rates} (h : (rtcSystem m).Reachable p) :
    (∃ F, Refines p.1.links F) ∧ RatesOk p.1 p.2 := by
  refine System.ReachableWhere.invariant
    (P := fun p => (∃ F, Refines p.1.links F) ∧ RatesOk p.1 p.2) h (fun p h0 => ?_)
    fun p e p' _ hp _ hs => ?_
  · obtain ⟨⟨mem, hstart⟩, hnone⟩ := h0
    obtain ⟨q, hF⟩ := started_refines hstart
    rw [hnone]
    exact ⟨⟨_, hF⟩, hstart.ratesOk⟩
  · obtain ⟨⟨F, hF⟩, hok⟩ := hp
    obtain ⟨hstep, hnote⟩ := System.withHistory_step_iff.mp hs
    obtain ⟨⟨k', out⟩, hstep, hk'⟩ := Option.map_eq_some_iff.mp hstep
    rw [← hk', hnote]
    exact ⟨(rtcStep_keeps hF hstep).1, hok.step hF hstep⟩

/-- The rate of a read is the one last set by a process of the reader's terminal. It is the
reader's own if that process is the reader, and no step of a process of another terminal changes
it. -/
theorem rtc_rate_shared {p : Kernel × Rates} (h : (rtcSystem m).Reachable p) :
    rtc_rate p.1 = p.2.last (p.1.pcb p.1.cur_pid).term_id ∧
      (p.2.setter (p.1.pcb p.1.cur_pid).term_id = some p.1.cur_pid →
        p.2.own p.1.cur_pid = some (rtc_rate p.1)) ∧
      ∀ e k' out, rtcStep m p.1 e = some (k', out) → ∀ t, t ≠ (p.1.pcb p.1.cur_pid).term_id →
        (k'.term t).rtc_freq = (p.1.term t).rtc_freq := by
  obtain ⟨⟨F, hF⟩, hok⟩ := rtcSystem_ok h
  have hcur : (p.1.pcb p.1.cur_pid).term_id = p.1.running_term := hF.cur_term
  have hlast : rtc_rate p.1 = p.2.last (p.1.pcb p.1.cur_pid).term_id := by
    rw [hcur]
    exact hok.last p.1.running_term
  refine ⟨hlast, fun hset => ?_, fun e k' out hs t ht => ?_⟩
  · rw [hlast]
    exact hok.own _ _ hset
  · rw [hcur] at ht
    rw [rtcStep_rates hF.stacked.number hs, setFreq_of_ne ht]

end

/-! ## A child that opens the RTC -/

/-- A machine with an RTC. -/
def rtcMachine : Machine :=
  imageMachine (listedImage ['r', 't', 'c'] 0) (holdsExecutable_shell (i := 0) (by decide +kernel)
    (by decide +kernel) (by decide +kernel) (by decide +kernel))

/-- Its first shell. -/
def rtcKernel : Kernel :=
  ((execute_func rtcMachine .kernel rtcMachine.shell sampleFrame
    (boot rtcMachine sampleMemory)).map Prod.fst).getD (boot rtcMachine sampleMemory)

theorem rtcKernel_init : (rtcSystem rtcMachine).init (rtcKernel, Rates.initial) := by
  obtain ⟨k, e, hex⟩ := execute_shell_isSome rtcMachine .kernel sampleFrame
    (k := boot rtcMachine sampleMemory) (p := 0) rfl
  have hk : rtcKernel = k := by
    unfold rtcKernel
    rw [hex]
    rfl
  exact ⟨⟨sampleMemory, sampleFrame, e, hk ▸ hex⟩, rfl⟩

def openRtc : RtcEvent := .kernel (.open_file (some (literal ['r', 't', 'c'] fun _ => 0)))

/-- Set 64 Hz. -/
def writeRtc : RtcEvent := .write 2 (some fun j => if j = 0 then 64 else 0) 4

theorem rtc_rate_shared_shell : ∃ p, (rtcSystem rtcMachine).Reachable p ∧
    rtc_rate p.1 = 64 ∧ rtc_rate p.1 = p.2.last (p.1.pcb p.1.cur_pid).term_id ∧
      (p.2.setter (p.1.pcb p.1.cur_pid).term_id = some p.1.cur_pid →
        p.2.own p.1.cur_pid = some (rtc_rate p.1)) ∧
      ∀ e k' out, rtcStep rtcMachine p.1 e = some (k', out) →
        ∀ t, t ≠ (p.1.pcb p.1.cur_pid).term_id →
          (k'.term t).rtc_freq = (p.1.term t).rtc_freq := by
  have hrun : ((rtcSystem rtcMachine).runFrom (rtcKernel, Rates.initial) [openRtc, writeRtc]).any
      (fun p => decide (rtc_rate p.1 = 64)) = true := by decide +kernel
  obtain ⟨p, hreach, hrate⟩ := System.Reachable.exists_of_run rtcKernel_init _ hrun
  exact ⟨p, hreach, hrate, rtc_rate_shared hreach⟩

/-- The shell sets 64 Hz and starts a program, which opens the RTC and halts. The shell then
reads at 2 Hz. -/
theorem rtc_rate_not_own : ¬ ∀ (m : Machine) (p : Kernel × Rates), (rtcSystem m).Reachable p →
    ∀ rate, p.2.own p.1.cur_pid = some rate → rtc_rate p.1 = rate := by
  intro h
  have hrun : ((rtcSystem rtcMachine).runFrom (rtcKernel, Rates.initial)
      [openRtc, writeRtc, .kernel (.execute (literal shellName fun _ => 0) sampleFrame), openRtc,
        .kernel (.halt 0 sampleFrame sampleFrame)]).any
      (fun p => decide (p.2.own p.1.cur_pid = some 64 ∧ rtc_rate p.1 = 2)) = true := by
    decide +kernel
  obtain ⟨p, hreach, hown, hrate⟩ := System.Reachable.exists_of_run rtcKernel_init _ hrun
  have hsame := h rtcMachine p hreach 64 hown
  rw [hrate] at hsame
  cases hsame

end Kernel391
