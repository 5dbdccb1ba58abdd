import Kernel391.PagingTheorems
import Kernel391.ProcessForest

/-!
# What a program can reach in memory

Between operations the program page maps the frame of the running process, and the only
other page open to user mode shows a screen. The invariant ties the last `remap` to
`cur_pid`, and the last `remap_vid` to a screen; `execute`, `halt` and the scheduler keep it.

`vidmap` keeps it only as long as its pointer stays out of the kernel's page: it stores
through the pointer with the kernel's rights, and the page tables lie in that page.
-/

namespace Kernel391

open TransitionSystem

/-! ## The invariant -/

/-- The tables are in order, and the screens that may be mapped are screens. -/
structure Prepared (m : Machine) (k : Kernel) : Prop where
  tables : TablesOk m.layout k.paging
  screens : ∀ t, IsScreen ((k.console.term t).vid_backup / four_KB)

/-- The program page is the running process's as well. -/
structure Isolated (m : Machine) (k : Kernel) : Prop extends Prepared m k where
  user : UserPage k.paging (2 + k.cur_pid)

/-- Frame number of the 4 MB page of a process. -/
theorem frame_of_pid (p : Pid) : (_8MB + p * _4MB) / four_MB = 2 + p := by
  have hlt := p.isLt
  simp only [_8MB, _4MB, four_MB]
  omega

/-- The program page after `remap` for process `p`. -/
theorem remap_user_of_pid (p : Pid) (pg : Paging) :
    UserPage (remap _128MB (_8MB + p * _4MB) pg) (2 + p) := by
  have hlt : _8MB + p.val * _4MB < 2 ^ 32 := by
    have hp : p.val < 6 := p.isLt
    simp only [_8MB, _4MB]
    omega
  have huser := remap_user pg hlt
  rw [frame_of_pid] at huser
  exact huser

theorem video_isScreen : IsScreen (VIDEO / four_KB) := by
  constructor <;> decide

/-- Only the tables and the places of the screens matter. -/
theorem Prepared.congr {m : Machine} {k k' : Kernel} (h : Prepared m k)
    (hpaging : k'.paging = k.paging) (hscreens : SameScreens k.console k'.console) :
    Prepared m k' := by
  constructor
  · rw [hpaging]
    exact h.tables
  · intro t
    rw [hscreens t]
    exact h.screens t

theorem Isolated.congr {m : Machine} {k k' : Kernel} (h : Isolated m k)
    (hpaging : k'.paging = k.paging) (hscreens : SameScreens k.console k'.console)
    (hcur : k'.cur_pid = k.cur_pid) : Isolated m k' := by
  refine ⟨h.toPrepared.congr hpaging hscreens, ?_⟩
  rw [hpaging, hcur]
  exact h.user

/-- Video memory is mapped at 132 MB, whichever screen it is. -/
theorem Prepared.videoMap {m : Machine} {k : Kernel} (h : Prepared m k) (t u : TermId) :
    TablesOk m.layout (videoMap m t u k) := by
  have hvideo := h.tables.remap_vid video_isScreen
  unfold Kernel391.videoMap
  split_ifs
  · exact hvideo.remap_vid (h.screens t)
  · exact hvideo

theorem videoMap_user {m : Machine} {k : Kernel} {base : ℕ} (h : UserPage k.paging base)
    (t u : TermId) : UserPage (videoMap m t u k) base := by
  unfold videoMap
  split_ifs
  · exact (h.remap_vid _ _).remap_vid _ _
  · exact h.remap_vid _ _

/-! ## What keeps it -/

/-- A new process gets its own frame. -/
theorem Prepared.execute {m : Machine} {caller : Caller} {command : Bytes} {fr : Frame}
    {k k' : Kernel} {e : ℕ} (h : Prepared m k)
    (hex : execute_func m caller command fr k = some (k', .enterUser e)) : Isolated m k' := by
  rcases execute_func_cases hex with ⟨fs, -, hout, -⟩ | ⟨x, -, -, hout, -⟩ |
    ⟨x, p, -, -, -, -, frame, console, hterm, rfl⟩
  · cases hout
  · cases hout
  · refine ⟨⟨h.tables.remap _, ?_⟩, remap_user_of_pid p k.paging⟩
    exact fun t => (sameScreens_of_term_eq hterm t).symm ▸ h.screens t

theorem Isolated.execute {m : Machine} {caller : Caller} {command : Bytes} {fr : Frame}
    {k k' : Kernel} {out : Outcome} (h : Isolated m k)
    (hex : execute_func m caller command fr k = some (k', out)) : Isolated m k' := by
  rcases execute_func_cases hex with ⟨fs, -, -, rfl⟩ | ⟨x, -, -, -, console, hterm, rfl⟩ |
    ⟨x, p, -, -, -, rfl, -⟩
  · exact h.congr rfl (fun t => rfl) rfl
  · exact h.congr rfl (sameScreens_of_term_eq hterm) rfl
  · exact h.toPrepared.execute hex

/-- The first part of `halt` leaves the tables alone. -/
theorem Prepared.halt_target {m : Machine} {status : UInt8} {fr : Frame} {k k' : Kernel}
    {victim : Pid} {t : TermId} (h : Prepared m k)
    (htarget : halt_target status fr k.cli = some (victim, t, k')) : Prepared m k' := by
  obtain ⟨console, hscreens, hcases⟩ := halt_target_cases htarget
  rcases hcases with ⟨-, -, -, -, rfl⟩ | ⟨-, -, -, -, running, -, rfl⟩ | ⟨-, -, -, rfl⟩
  · exact h.congr rfl hscreens
  · exact h.congr rfl hscreens
  · exact h.congr rfl hscreens

/-- `halt` maps the parent's frame, or starts a shell. -/
theorem Isolated.halt {m : Machine} {status : UInt8} {fr frShell : Frame} {k k' : Kernel}
    {out : Outcome} (h : Isolated m k)
    (hhalt : halt_func m status fr frShell k = some (k', out)) : Isolated m k' := by
  obtain ⟨victim, t, k₁, htarget, -, hend⟩ := halt_func_cases hhalt
  have hk₁ := h.toPrepared.halt_target htarget
  rcases hend with ⟨parent, -, heq⟩ | ⟨-, e, -, hex⟩
  · rw [show k' = _ from congrArg Prod.fst heq]
    -- whichever process the parent is, `remap` gets its number
    exact ⟨⟨hk₁.tables.remap _, hk₁.screens⟩, remap_user_of_pid _ _⟩
  · refine Prepared.execute (hk₁.congr ?_ ?_) hex
    · rfl
    · exact fun t => rfl

theorem Isolated.launch_term {m : Machine} {t : TermId} {fr frShell : Frame} {k k' : Kernel}
    {out : Outcome} (h : Isolated m k)
    (hlaunch : launch_term m t fr frShell k = some (k', out)) : Isolated m k' := by
  have hswitch : SameScreens k.console (switch_terminal k.curr_term t k.console) :=
    switch_terminal_screens _ _ _
  rcases launch_term_cases hlaunch with ⟨-, rfl, -⟩ | ⟨-, -, old, -, r, hex, -⟩ | ⟨-, -, rfl, -⟩
  · exact h.congr rfl (fun t => rfl) rfl
  · have hopen : Isolated m (opening t old fr k) := h.congr rfl hswitch rfl
    exact hopen.execute hex
  · have hk₁ : Isolated m { k with console := switch_terminal k.curr_term t k.console } :=
      h.congr rfl hswitch rfl
    exact ⟨⟨hk₁.toPrepared.videoMap _ _, hk₁.screens⟩, videoMap_user hk₁.user _ _⟩

theorem Isolated.tick {m : Machine} {fr : Frame} {k k' : Kernel} (h : Isolated m k)
    (hid : ∀ t, (k.term t).term_id = t) (htick : pit_interrupt_handler m fr k = some k') :
    Isolated m k' := by
  rcases pit_interrupt_handler_cases hid htick with ⟨-, -, rfl⟩ |
    ⟨-, t, p, curr, -, -, rfl⟩
  · exact h.congr rfl (fun t => rfl) rfl
  · exact ⟨⟨(h.toPrepared.videoMap _ _).remap _, h.screens⟩, remap_user_of_pid p _⟩

/-! ## `vidmap` -/

/-- A byte stored outside the kernel's page changes no page table. -/
theorem storePhysical_paging {m : Machine} {addr : ℕ} {b : UInt8} {k k' : Kernel}
    (haddr : addr / four_MB ≠ 1) (h : storePhysical m addr b k = some k') :
    k'.paging = k.paging := by
  obtain ⟨hpd, hpd'⟩ := m.layout.pd_kernel
  obtain ⟨hpt, hpt'⟩ := m.layout.pt_kernel
  unfold storePhysical at h
  simp only [four_MB] at haddr hpd hpd' hpt hpt'
  -- both tables lie in the kernel's page
  rw [if_neg (by omega), if_neg (by omega)] at h
  dsimp only at h
  split_ifs at h
  · exact (Option.some.inj h) ▸ rfl
  · exact (Option.some.inj h) ▸ rfl

/-- Outside the kernel's page the kernel's own accesses stay out of it as well. -/
theorem Isolated.kernelTranslate {m : Machine} {k : Kernel} (h : Isolated m k) {va : Word}
    {addr : ℕ} (hva : va.toNat / four_MB ≠ 1)
    (htr : kernelTranslate m k.paging va = some addr) : addr / four_MB ≠ 1 := by
  unfold Kernel391.kernelTranslate at htr
  rw [Option.map_eq_some_iff] at htr
  obtain ⟨mp, htr, rfl⟩ := htr
  rcases translate_cases h.tables h.user htr with ⟨hkernel, -⟩ | ⟨-, haddr⟩ | ⟨hscreen, -⟩
  · exact absurd hkernel hva
  · have hoff : va.toNat % four_MB < four_MB := Nat.mod_lt _ (by decide)
    rw [haddr]
    simp only [four_MB] at hoff ⊢
    omega
  · obtain ⟨-, hle⟩ := hscreen
    simp only [VIDEO_ADDR, four_KB] at hle
    simp only [four_MB]
    omega

/-- No byte of the word at `ptr` lies in the kernel's page. -/
def OutsideKernel (ptr : Word) : Prop :=
  ∀ i < 4, (ptr + BitVec.ofNat 32 i).toNat / four_MB ≠ 1

instance (ptr : Word) : Decidable (OutsideKernel ptr) := by
  unfold OutsideKernel
  infer_instance

theorem Isolated.storeThrough {m : Machine} {k k' : Kernel} {ptr : Word} {v : ℕ}
    (h : Isolated m k) (hptr : OutsideKernel ptr) (hs : storeThrough m ptr v k = some k') :
    k'.paging = k.paging := by
  unfold Kernel391.storeThrough at hs
  -- byte by byte, each through the tables as they were before the store
  refine foldlM_invariant (P := fun k' => k'.paging = k.paging) ?_ rfl hs
  intro k₁ i k₂ hi hk₁ hbyte
  rw [Option.bind_eq_bind, Option.bind_eq_some_iff] at hbyte
  obtain ⟨addr, htr, hstore⟩ := hbyte
  have haddr := h.kernelTranslate (hptr i (List.mem_range.mp hi)) htr
  exact (storePhysical_paging haddr hstore).trans hk₁

theorem Isolated.vidmap {m : Machine} {k k' : Kernel} {ptr : Word} {r : ℤ} (h : Isolated m k)
    (hptr : ptr.toNat = _4MB ∨ OutsideKernel ptr)
    (hvid : vidmap_func m ptr k = some (k', r)) : Isolated m k' := by
  unfold vidmap_func at hvid
  by_cases hrej : ptr.toNat = 0 ∨ ptr.toNat = _4MB
  · rw [if_pos hrej, Option.some.injEq, Prod.mk.injEq] at hvid
    exact hvid.1 ▸ h
  · rw [if_neg hrej, Option.bind_eq_bind, Option.bind_eq_some_iff] at hvid
    obtain ⟨k₁, hstore, hvid⟩ := hvid
    have hout : OutsideKernel ptr := hptr.resolve_left fun h4 => hrej (Or.inr h4)
    have hpaging := h.storeThrough hout hstore
    obtain ⟨paging, console, frame, hterm, rfl⟩ := storeThrough_memory hstore
    have hk₁ := h.congr hpaging (sameScreens_of_term_eq hterm) rfl
    rw [Option.some.injEq, Prod.mk.injEq] at hvid
    rw [← hvid.1]
    exact ⟨⟨hk₁.tables.remap_vid video_isScreen, hk₁.screens⟩, hk₁.user.remap_vid _ _⟩

/-! ## Runs -/

/-- No pointer given to `vidmap` is used to store into the kernel's page. -/
def SafePointer (_ : Kernel) : Event → Prop
  | .vidmap ptr => ptr.toNat = _4MB ∨ OutsideKernel ptr
  | _ => True

instance (k : Kernel) : DecidablePred (SafePointer k)
  | .vidmap ptr => inferInstanceAs (Decidable (ptr.toNat = _4MB ∨ OutsideKernel ptr))
  | .execute _ _ => .isTrue trivial
  | .halt _ _ _ => .isTrue trivial
  | .launch_term _ _ _ => .isTrue trivial
  | .tick _ => .isTrue trivial
  | .open_file _ => .isTrue trivial
  | .close _ => .isTrue trivial
  | .io _ _ _ _ _ => .isTrue trivial

/-- The other system calls do not touch the page tables. -/
theorem io_step_paging {console : Console} {dir_number : ℕ} {page : Bytes}
    {position : Fd → ℕ} {rtc_freq : ℕ} {k k' : Kernel}
    (h : io_step console dir_number page position rtc_freq k = some k') :
    k'.paging = k.paging := by
  unfold io_step at h
  split_ifs at h
  exact (Option.some.inj h) ▸ rfl

theorem open_func_paging (m : Machine) (filename : Option Bytes) (k : Kernel) :
    (open_func m filename k).1.paging = k.paging := by
  unfold open_func
  cases filename with
  | none => rfl
  | some name =>
    dsimp only
    split_ifs
    · rfl
    · rfl
    · split
      · rfl
      · split
        · rfl
        · split_ifs <;> rfl

theorem close_func_paging {fd r : ℤ} {k k' : Kernel} (h : close_func fd k = some (k', r)) :
    k'.paging = k.paging := by
  rcases close_func_cases h with ⟨rfl, -⟩ | ⟨i, -, -, -, rfl⟩ <;> rfl

theorem Isolated.quiet {m : Machine} {k k' : Kernel} (h : Isolated m k) (hq : Quiet k k')
    (hpaging : k'.paging = k.paging) : Isolated m k' := by
  obtain ⟨table, freq, paging, console, fs, frame, hscreens, rfl⟩ := hq
  exact h.congr hpaging hscreens rfl

/-- Every operation keeps the invariant. -/
theorem Isolated.step {m : Machine} {k k' : Kernel} {e : Event} {out : Outcome}
    {F : Forest TermId Pid} (hF : Refines k.links F) (h : Isolated m k) (hok : SafePointer k e)
    (hs : step m k e = some (k', out)) : Isolated m k' := by
  cases e with
  | execute command fr => exact h.execute hs
  | halt status fr frShell => exact h.halt hs
  | launch_term t fr frShell => exact h.launch_term hs
  | tick fr =>
    exact h.tick hF.stacked.number (step_tick hs).1
  | open_file filename =>
    rw [Kernel391.step, Option.some.injEq, Prod.mk.injEq] at hs
    exact hs.1 ▸ h.quiet (open_func_quiet m filename k) (open_func_paging m filename k)
  | close fd =>
    obtain ⟨r, hclose, -⟩ := step_close hs
    exact h.quiet (close_func_quiet hclose) (close_func_paging hclose)
  | vidmap ptr =>
    obtain ⟨r, hvid, -⟩ := step_vidmap hs
    exact h.vidmap hok hvid
  | io console dir_number page position rtc_freq =>
    obtain ⟨hio, -⟩ := step_io hs
    exact h.quiet (io_step_quiet hio) (io_step_paging hio)

/-- `init_term` knows three backup screens. -/
theorem init_term_console_screens (s : Console) (t : TermId) :
    IsScreen (((init_term_console s).term t).vid_backup / four_KB) := by
  have hbackup : ((init_term_console s).term t).vid_backup =
      if t = 0 then VIDEOA else if t = 1 then VIDEOB else VIDEOC :=
    match t with
    | 0 => rfl
    | 1 => rfl
    | 2 => rfl
  rw [hbackup]
  unfold IsScreen
  split_ifs <;> decide

theorem isolated_of_run {m : Machine} {k : Kernel} (h : ReachableWhere m SafePointer k) :
    Isolated m k := by
  refine System.ReachableWhere.invariant h (fun k h0 => ?_) fun k e k' hr hk hok hstep => ?_
  · obtain ⟨mem, -, fr, e, hex⟩ := h0
    have hboot : Prepared m (boot m mem) :=
      { tables := set_up_PD_PT_ok m.layout mem.paging
        screens := init_term_console_screens mem.console }
    exact hboot.execute hex
  · obtain ⟨F, hF⟩ := (reachable_of_boot hr).refines
    obtain ⟨out, hs⟩ := system_step_iff.mp hstep
    exact hk.step hF hok hs

/-- The 4 MB frame of a process. -/
def InFrame (p : Pid) (pa : ℕ) : Prop := _8MB + p * _4MB ≤ pa ∧ pa < _8MB + (p + 1) * _4MB

/-- The addresses user mode may use, and where they lead. -/
def MapsOnlyOwn (m : Machine) (k : Kernel) : Prop :=
  ∀ (mem : ℕ → ℕ → Word) (va : Word) (pa : ℕ),
    userTranslate m.layout k.paging mem va = some pa →
      (_128MB ≤ va.toNat ∧ va.toNat < _132MB ∧
          pa = _8MB + k.cur_pid * _4MB + (va.toNat - _128MB)) ∨
        (_132MB ≤ va.toNat ∧ va.toNat < _132MB + four_KB ∧ IsScreen (pa / four_KB))

/-- Such a program stays out of the frames of the others and of the kernel's page. -/
theorem MapsOnlyOwn.confined {m : Machine} {k : Kernel} (h : MapsOnlyOwn m k)
    {mem : ℕ → ℕ → Word} {va : Word} {pa : ℕ}
    (hu : userTranslate m.layout k.paging mem va = some pa) :
    (∀ p, p ≠ k.cur_pid → ¬ InFrame p pa) ∧ ¬ (four_MB ≤ pa ∧ pa < 2 * four_MB) := by
  rcases h mem va pa hu with ⟨hlo, hhi, hpa⟩ | ⟨-, -, hscreen⟩
  · simp only [_128MB, _132MB, _8MB, _4MB] at hlo hhi hpa
    constructor
    · intro p hp hin
      have hne : p.val ≠ k.cur_pid.val := fun heq => hp (Fin.ext heq)
      simp only [InFrame, _8MB, _4MB] at hin
      omega
    · simp only [four_MB]
      omega
  · obtain ⟨-, hle⟩ := hscreen
    simp only [VIDEO_ADDR, four_KB] at hle
    constructor
    · intro p _ hin
      simp only [InFrame, _8MB] at hin
      omega
    · simp only [four_MB]
      omega

theorem Isolated.mapsOnlyOwn {m : Machine} {k : Kernel} (h : Isolated m k) :
    MapsOnlyOwn m k := by
  intro mem va pa hu
  rcases userTranslate_cases h.tables h.user hu with ⟨hva, rfl⟩ | ⟨hva, hscreen⟩
  · simp only [userEntry, four_MB] at hva
    simp only [_128MB, _132MB, _8MB, _4MB, four_MB]
    omega
  · simp only [videoEntry, NUMBER_ENTRIES, four_KB] at hva
    refine Or.inr ⟨?_, ?_, hscreen⟩
    · simp only [_132MB]
      omega
    · simp only [_132MB, four_KB]
      omega

/-- As long as no pointer given to `vidmap` leads into the kernel's page, a program reaches
its own frame and one screen, and nothing of another process or of the kernel. -/
theorem user_memory_isolated {m : Machine} {k : Kernel} (h : ReachableWhere m SafePointer k) :
    MapsOnlyOwn m k ∧
      ∀ (mem : ℕ → ℕ → Word) (va : Word) (pa : ℕ),
        userTranslate m.layout k.paging mem va = some pa →
          (∀ p, p ≠ k.cur_pid → ¬ InFrame p pa) ∧ ¬ (four_MB ≤ pa ∧ pa < 2 * four_MB) := by
  have hown : MapsOnlyOwn m k := (isolated_of_run h).mapsOnlyOwn
  exact ⟨hown, fun mem va pa hu => hown.confined hu⟩

/-- The first shell has asked for video memory, with a pointer into its own page. -/
theorem user_memory_isolated_vidmap : ∃ k, ReachableWhere sampleMachine SafePointer k ∧
    userTranslate sampleLayout k.paging (fun _ _ => 0) 0x8400000 = some VIDEO ∧
    MapsOnlyOwn sampleMachine k := by
  have hinit : ReachableWhere sampleMachine SafePointer sampleKernel :=
    .init ⟨sampleMemory, trivial, sampleKernel_started⟩
  have hrun : (step sampleMachine sampleKernel (.vidmap 0x8100000)).any (fun r =>
      decide (userTranslate sampleLayout r.1.paging (fun _ _ => 0) 0x8400000 = some VIDEO)) =
      true := by
    decide +kernel
  rw [Option.any_eq_true] at hrun
  obtain ⟨⟨k, out⟩, hstep, hmap⟩ := hrun
  rw [decide_eq_true_eq] at hmap
  have hptr : SafePointer sampleKernel (.vidmap 0x8100000) := Or.inr (by decide)
  have hreach : ReachableWhere sampleMachine SafePointer k :=
    .step hinit hptr (system_step_iff.mpr ⟨out, hstep⟩)
  exact ⟨k, hreach, hmap, (user_memory_isolated hreach).1⟩

/-- The first shell passes `vidmap` the address of the upper half of its page directory
entry. Its program page then maps physical memory from address 0 on. -/
theorem user_memory_not_isolated : ¬ ∀ k, Reachable sampleMachine k →
    MapsOnlyOwn sampleMachine k := by
  intro hall
  obtain ⟨k, hreach, hcheck⟩ := sampleRun_exists [.vidmap 0x410082]
    (fun k => decide (k.cur_pid = 0 ∧
      userTranslate sampleLayout k.paging (fun _ _ => 0) 0x8000000 = some 0))
    (by decide +kernel)
  rw [decide_eq_true_eq] at hcheck
  obtain ⟨hcur, hmap⟩ := hcheck
  rcases hall k hreach _ _ _ hmap with ⟨-, -, hpa⟩ | ⟨hva, -, -⟩
  · rw [hcur] at hpa
    exact absurd hpa (by decide)
  · exact absurd hva (by decide)

end Kernel391
