import Kernel391.State

/-!
# What the page tables map

`remap`, `remap_vid` and `set_up_PD_PT` write bit fields; here is what the processor's walk
makes of them. `TablesOk` says what every entry but the program page's keeps through all
of them, `UserPage` where the program page goes. Together they bound the page walk
(`translate_cases`) and what user mode can reach (`userTranslate_cases`).
-/

namespace Kernel391

/-- Directory entry of the program page at 128 MB. -/
def userEntry : ℕ := 32

/-- Directory entry of the video page at 132 MB. -/
def videoEntry : ℕ := 33

/-- The page frames of video memory and its three backups. -/
def IsScreen (frame : ℕ) : Prop := VIDEO_ADDR ≤ frame ∧ frame ≤ VIDEO_ADDR + 3

/-- The entries the kernel sets up once, the shared page table, and the video page. -/
structure TablesOk (lay : Layout) (pg : Paging) : Prop where
  low_ps : PDE_4MB.ps.get (pg.page_directory 0) = 0
  low_table : PDE_4KB.page_table_base_addr.get (pg.page_directory 0) = lay.pt_frame
  low_us : PDE_4MB.us.get (pg.page_directory 0) = 0
  kernel_ps : PDE_4MB.ps.get (pg.page_directory 1) = 1
  kernel_us : PDE_4MB.us.get (pg.page_directory 1) = 0
  video : PDE_4MB.p.get (pg.page_directory videoEntry) = 0 ∨
    PDE_4MB.ps.get (pg.page_directory videoEntry) = 0 ∧
      PDE_4KB.page_table_base_addr.get (pg.page_directory videoEntry) = lay.pt_frame
  absent : ∀ i, 2 ≤ i → i < NUMBER_ENTRIES → i ≠ userEntry → i ≠ videoEntry →
    PDE_4MB.p.get (pg.page_directory i) = 0
  screen : ∀ i < NUMBER_ENTRIES, PTE.p.get (pg.page_table i) = 0 ∨
    IsScreen (PTE.page_base_addr.get (pg.page_table i))
  supervisor : ∀ i < NUMBER_ENTRIES, i ≠ 0 → PTE.us.get (pg.page_table i) = 0

/-- The program page lies in the 4 MB frame `base`. -/
structure UserPage (pg : Paging) (base : ℕ) : Prop where
  ps : PDE_4MB.ps.get (pg.page_directory userEntry) = 1
  frame : PDE_4MB.page_base_addr.get (pg.page_directory userEntry) = base

/-! ## The page walk -/

/-- Through the shared page table only screens can be reached, and in user mode only by its
first entry. -/
theorem translate_table {lay : Layout} {pg : Paging} {mem : ℕ → ℕ → Word} {va : Word}
    {mp : Mapping} (ht : TablesOk lay pg)
    (hps : PDE_4MB.ps.get (pg.page_directory (va.toNat / four_MB)) = 0)
    (hbase : PDE_4KB.page_table_base_addr.get (pg.page_directory (va.toNat / four_MB)) =
      lay.pt_frame)
    (h : translate lay pg mem va = some mp) :
    IsScreen (mp.addr / four_KB) ∧
      (mp.us = true → va.toNat / four_KB % NUMBER_ENTRIES = 0 ∧
        PDE_4MB.us.get (pg.page_directory (va.toNat / four_MB)) = 1) := by
  have hlt : va.toNat / four_KB % NUMBER_ENTRIES < NUMBER_ENTRIES := Nat.mod_lt _ (by decide)
  have hps' : ¬ PDE_4MB.ps.get (pg.page_directory (va.toNat / four_MB)) = 1 := by omega
  unfold translate at h
  dsimp only at h
  rw [if_neg hps', hbase, tableWord, if_pos rfl] at h
  split_ifs at h with hp hpte
  rw [Option.some.injEq] at h
  subst h
  constructor
  · -- a present entry of the table is a screen
    have hscreen := (ht.screen _ hlt).resolve_left hpte
    have hoff : va.toNat % four_KB < four_KB := Nat.mod_lt _ (by decide)
    dsimp only
    rw [Nat.add_comm, Nat.add_mul_div_right _ _ (by decide), Nat.div_eq_of_lt hoff, Nat.zero_add]
    exact hscreen
  · intro hus
    rw [decide_eq_true_eq] at hus
    refine ⟨?_, hus.1⟩
    -- only entry 0 is ever opened to user mode
    by_contra hne
    have hzero := ht.supervisor _ hlt hne
    omega

/-- Every mapping is the kernel's page, the program page, or a screen. -/
theorem translate_cases {lay : Layout} {pg : Paging} {base : ℕ} {mem : ℕ → ℕ → Word}
    {va : Word} {mp : Mapping} (ht : TablesOk lay pg) (hu : UserPage pg base)
    (h : translate lay pg mem va = some mp) :
    (va.toNat / four_MB = 1 ∧ mp.us = false) ∨
    (va.toNat / four_MB = userEntry ∧ mp.addr = base * four_MB + va.toNat % four_MB) ∨
    (IsScreen (mp.addr / four_KB) ∧
      (mp.us = true → va.toNat / four_KB = videoEntry * NUMBER_ENTRIES)) := by
  have hva : va.toNat / four_MB < NUMBER_ENTRIES := by
    have hlt := va.isLt
    simp only [four_MB, NUMBER_ENTRIES]
    omega
  have hsplit : va.toNat / four_KB = va.toNat / four_MB * NUMBER_ENTRIES +
      va.toNat / four_KB % NUMBER_ENTRIES := by
    simp only [four_KB, four_MB, NUMBER_ENTRIES]
    omega
  have hp : PDE_4MB.p.get (pg.page_directory (va.toNat / four_MB)) ≠ 0 := by
    intro hp
    unfold translate at h
    rw [if_pos hp] at h
    cases h
  -- directory entries 0, 1, 33, 32 and the rest
  by_cases h0 : va.toNat / four_MB = 0
  · refine Or.inr (Or.inr ?_)
    have hwalk := translate_table ht (h0 ▸ ht.low_ps) (h0 ▸ ht.low_table) h
    refine ⟨hwalk.1, fun hus => ?_⟩
    have hset := (hwalk.2 hus).2
    rw [h0, ht.low_us] at hset
    cases hset
  by_cases h1 : va.toNat / four_MB = 1
  · refine Or.inl ⟨h1, ?_⟩
    unfold translate at h
    dsimp only at h
    rw [h1, if_neg (h1 ▸ hp), if_pos ht.kernel_ps, ht.kernel_us, Option.some.injEq] at h
    subst h
    rfl
  by_cases hv : va.toNat / four_MB = videoEntry
  · refine Or.inr (Or.inr ?_)
    obtain ⟨hps, hbase⟩ := ht.video.resolve_left (hv ▸ hp)
    have hwalk := translate_table ht (hv ▸ hps) (hv ▸ hbase) h
    refine ⟨hwalk.1, fun hus => ?_⟩
    rw [hsplit, (hwalk.2 hus).1, hv, Nat.add_zero]
  by_cases hus : va.toNat / four_MB = userEntry
  · refine Or.inr (Or.inl ⟨hus, ?_⟩)
    unfold translate at h
    dsimp only at h
    rw [hus, if_neg (hus ▸ hp), if_pos hu.ps, hu.frame, Option.some.injEq] at h
    subst h
    rfl
  · have h2 : 2 ≤ va.toNat / four_MB := (Nat.two_le_iff _).mpr ⟨h0, h1⟩
    exact absurd (ht.absent _ h2 hva hus hv) hp

/-- User mode reaches the program page and one screen. -/
theorem userTranslate_cases {lay : Layout} {pg : Paging} {base : ℕ} {mem : ℕ → ℕ → Word}
    {va : Word} {pa : ℕ} (ht : TablesOk lay pg) (hu : UserPage pg base)
    (h : userTranslate lay pg mem va = some pa) :
    (va.toNat / four_MB = userEntry ∧ pa = base * four_MB + va.toNat % four_MB) ∨
    (va.toNat / four_KB = videoEntry * NUMBER_ENTRIES ∧ IsScreen (pa / four_KB)) := by
  unfold userTranslate at h
  cases htr : translate lay pg mem va with
  | none =>
    rw [htr] at h
    cases h
  | some mp =>
    rw [htr] at h
    dsimp only at h
    split_ifs at h with hus
    rw [Option.some.injEq] at h
    subst h
    rcases translate_cases ht hu htr with ⟨-, hnot⟩ | huser | ⟨hscreen, hvideo⟩
    · rw [hnot] at hus
      cases hus
    · exact Or.inl huser
    · exact Or.inr ⟨hvideo hus, hscreen⟩

/-! ## The fields of both views -/

theorem PDE_4KB.us_eq : PDE_4KB.us = PDE_4MB.us := rfl
theorem PDE_4KB.ps_eq : PDE_4KB.ps = PDE_4MB.ps := rfl

@[simp] theorem setEntry_page_table (pg : Paging) (pde : ℕ) (fields : List (BitField × ℕ)) :
    (pg.setEntry pde fields).page_table = pg.page_table := rfl

@[simp] theorem setEntry_self (pg : Paging) (pde : ℕ) (fields : List (BitField × ℕ)) :
    (pg.setEntry pde fields).page_directory pde = assign (pg.page_directory pde) fields :=
  Function.update_self ..

@[simp] theorem setEntry_of_ne (pg : Paging) (pde : ℕ) (fields : List (BitField × ℕ)) {i : ℕ}
    (h : i ≠ pde) : (pg.setEntry pde fields).page_directory i = pg.page_directory i :=
  Function.update_of_ne h ..

/-- The shared page table's frame number fits its field. -/
theorem pt_frame_lt (lay : Layout) : lay.pt_frame < 2 ^ 20 := by
  have hle := lay.pt_kernel.2
  simp only [four_KB, four_MB] at hle
  rw [Layout.pt_frame, shift, Nat.shiftRight_eq_div_pow]
  omega

/-- The entries but those at 128 MB and 132 MB are kept, and what the others need is given. -/
theorem TablesOk.congr {lay : Layout} {pg pg' : Paging} (h : TablesOk lay pg)
    (hdir : ∀ i, i ≠ userEntry → i ≠ videoEntry → pg'.page_directory i = pg.page_directory i)
    (hvideo : PDE_4MB.p.get (pg'.page_directory videoEntry) = 0 ∨
      PDE_4MB.ps.get (pg'.page_directory videoEntry) = 0 ∧
        PDE_4KB.page_table_base_addr.get (pg'.page_directory videoEntry) = lay.pt_frame)
    (hscreen : ∀ i < NUMBER_ENTRIES, PTE.p.get (pg'.page_table i) = 0 ∨
      IsScreen (PTE.page_base_addr.get (pg'.page_table i)))
    (hsuper : ∀ i < NUMBER_ENTRIES, i ≠ 0 → PTE.us.get (pg'.page_table i) = 0) :
    TablesOk lay pg' := by
  have h0 : pg'.page_directory 0 = pg.page_directory 0 := hdir 0 (by decide) (by decide)
  have h1 : pg'.page_directory 1 = pg.page_directory 1 := hdir 1 (by decide) (by decide)
  refine ⟨?_, ?_, ?_, ?_, ?_, hvideo, ?_, hscreen, hsuper⟩
  · rw [h0]
    exact h.low_ps
  · rw [h0]
    exact h.low_table
  · rw [h0]
    exact h.low_us
  · rw [h1]
    exact h.kernel_ps
  · rw [h1]
    exact h.kernel_us
  · intro i h2 hlt hu hv
    rw [hdir i hu hv]
    exact h.absent i h2 hlt hu hv

/-! ## `remap` -/

theorem remap_directory_of_ne (pg : Paging) {i : ℕ} (pa : ℕ) (h : i ≠ userEntry) :
    (remap _128MB pa pg).page_directory i = pg.page_directory i :=
  setEntry_of_ne pg _ _ h

/-- The program page's entry: present, of 4 MB, and open to user mode and to writes. -/
theorem remap_entry (pg : Paging) (pa : ℕ) :
    PDE_4MB.p.get ((remap _128MB pa pg).page_directory userEntry) = 1 ∧
      PDE_4MB.ps.get ((remap _128MB pa pg).page_directory userEntry) = 1 ∧
      PDE_4MB.us.get ((remap _128MB pa pg).page_directory userEntry) = 1 ∧
      PDE_4MB.rw.get ((remap _128MB pa pg).page_directory userEntry) = 1 := by
  have hpde : _128MB / four_MB = userEntry := rfl
  unfold remap
  rw [hpde, setEntry_self]
  refine ⟨?_, ?_, ?_, ?_⟩ <;>
  · simp (disch := decide) only [assign_cons, assign_nil, BitField.get_set_of_disjoint,
      BitField.get_set_self]
    rfl

theorem remap_user (pg : Paging) {pa : ℕ} (h : pa < 2 ^ 32) :
    UserPage (remap _128MB pa pg) (pa / four_MB) where
  ps := (remap_entry pg pa).2.1
  frame := by
    have hpde : _128MB / four_MB = userEntry := rfl
    unfold remap
    rw [hpde, setEntry_self]
    simp (disch := decide) only [assign_cons, assign_nil, BitField.get_set_self]
    rw [Nat.shiftRight_eq_div_pow]
    show pa / 2 ^ 22 % 2 ^ 10 = pa / four_MB
    simp only [four_MB]
    omega

/-- The other entries stay. -/
theorem TablesOk.remap {lay : Layout} {pg : Paging} (h : TablesOk lay pg) (pa : ℕ) :
    TablesOk lay (remap _128MB pa pg) := by
  refine h.congr (fun i hu _ => remap_directory_of_ne pg pa hu) ?_ h.screen h.supervisor
  rw [remap_directory_of_ne pg pa (by decide)]
  exact h.video

/-! ## `remap_vid` -/

section
variable (lay : Layout) (addr : ℕ) (pg : Paging)

theorem remap_vid_directory_of_ne {i : ℕ} (h : i ≠ videoEntry) :
    (remap_vid lay _132MB addr pg).page_directory i = pg.page_directory i :=
  setEntry_of_ne pg _ _ h

theorem remap_vid_table_of_ne {i : ℕ} (h : i ≠ 0) :
    (remap_vid lay _132MB addr pg).page_table i = pg.page_table i :=
  Function.update_of_ne h ..

/-- The video page is reached through the shared page table. -/
theorem remap_vid_video :
    PDE_4MB.ps.get ((remap_vid lay _132MB addr pg).page_directory videoEntry) = 0 ∧
      PDE_4KB.page_table_base_addr.get
        ((remap_vid lay _132MB addr pg).page_directory videoEntry) = lay.pt_frame := by
  have hpde : _132MB / four_MB = videoEntry := rfl
  unfold remap_vid
  dsimp only
  rw [hpde, setEntry_self, ← PDE_4KB.ps_eq]
  constructor
  · simp (disch := decide) only [assign_cons, assign_nil, BitField.get_set_of_disjoint,
      BitField.get_set_self]
    rfl
  · simp (disch := decide) only [assign_cons, assign_nil, BitField.get_set_self]
    exact Nat.mod_eq_of_lt (pt_frame_lt lay)

/-- Its entry is present and open to user mode and to writes. -/
theorem remap_vid_entry :
    PDE_4KB.p.get ((remap_vid lay _132MB addr pg).page_directory videoEntry) = 1 ∧
      PDE_4KB.us.get ((remap_vid lay _132MB addr pg).page_directory videoEntry) = 1 ∧
      PDE_4KB.rw.get ((remap_vid lay _132MB addr pg).page_directory videoEntry) = 1 := by
  have hpde : _132MB / four_MB = videoEntry := rfl
  unfold remap_vid
  dsimp only
  rw [hpde, setEntry_self]
  refine ⟨?_, ?_, ?_⟩ <;>
  · simp (disch := decide) only [assign_cons, assign_nil, BitField.get_set_of_disjoint,
      BitField.get_set_self]
    rfl

/-- So is the first entry of that table. -/
theorem remap_vid_word :
    PTE.p.get ((remap_vid lay _132MB addr pg).page_table 0) = 1 ∧
      PTE.us.get ((remap_vid lay _132MB addr pg).page_table 0) = 1 ∧
      PTE.rw.get ((remap_vid lay _132MB addr pg).page_table 0) = 1 := by
  unfold remap_vid
  dsimp only
  rw [Function.update_self]
  refine ⟨?_, ?_, ?_⟩ <;>
  · simp (disch := decide) only [assign_cons, assign_nil, BitField.get_set_of_disjoint,
      BitField.get_set_self]
    rfl

/-- And it is the frame asked for. -/
theorem remap_vid_frame (h : addr < 2 ^ 32) :
    PTE.page_base_addr.get ((remap_vid lay _132MB addr pg).page_table 0) = addr / four_KB := by
  unfold remap_vid
  dsimp only
  rw [Function.update_self]
  simp (disch := decide) only [assign_cons, assign_nil, BitField.get_set_self]
  rw [Nat.shiftRight_eq_div_pow]
  show addr / 2 ^ 12 % 2 ^ 20 = addr / four_KB
  simp only [four_KB]
  omega

end

/-- A screen mapped at 132 MB keeps the tables in order. -/
theorem TablesOk.remap_vid {lay : Layout} {pg : Paging} (h : TablesOk lay pg) {addr : ℕ}
    (haddr : IsScreen (addr / four_KB)) : TablesOk lay (remap_vid lay _132MB addr pg) := by
  have hlt : addr < 2 ^ 32 := by
    have hle := haddr.2
    simp only [VIDEO_ADDR, four_KB] at hle
    omega
  refine h.congr (fun i _ hv => remap_vid_directory_of_ne lay addr pg hv)
    (Or.inr (remap_vid_video lay addr pg)) (fun i hi => ?_) fun i hi h0 => ?_
  · by_cases h0 : i = 0
    · rw [h0, remap_vid_frame lay addr pg hlt]
      exact Or.inr haddr
    · rw [remap_vid_table_of_ne _ _ _ h0]
      exact h.screen i hi
  · rw [remap_vid_table_of_ne _ _ _ h0]
    exact h.supervisor i hi h0

theorem UserPage.remap_vid {pg : Paging} {base : ℕ} (h : UserPage pg base) (lay : Layout)
    (addr : ℕ) : UserPage (remap_vid lay _132MB addr pg) base := by
  constructor
  · rw [remap_vid_directory_of_ne _ _ _ (by decide)]
    exact h.ps
  · rw [remap_vid_directory_of_ne _ _ _ (by decide)]
    exact h.frame

/-- The page at 132 MB is mapped for user mode, to the frame `base`. -/
structure VideoPage (lay : Layout) (pg : Paging) (base : ℕ) : Prop where
  p : PDE_4MB.p.get (pg.page_directory videoEntry) = 1
  ps : PDE_4MB.ps.get (pg.page_directory videoEntry) = 0
  us : PDE_4KB.us.get (pg.page_directory videoEntry) = 1
  table : PDE_4KB.page_table_base_addr.get (pg.page_directory videoEntry) = lay.pt_frame
  pte_p : PTE.p.get (pg.page_table 0) = 1
  pte_us : PTE.us.get (pg.page_table 0) = 1
  frame : PTE.page_base_addr.get (pg.page_table 0) = base

/-- Whatever was mapped there before. -/
theorem remap_vid_videoPage (lay : Layout) (pg : Paging) {addr : ℕ} (h : addr < 2 ^ 32) :
    VideoPage lay (remap_vid lay _132MB addr pg) (addr / four_KB) where
  p := (remap_vid_entry lay addr pg).1
  ps := (remap_vid_video lay addr pg).1
  us := (remap_vid_entry lay addr pg).2.1
  table := (remap_vid_video lay addr pg).2
  pte_p := (remap_vid_word lay addr pg).1
  pte_us := (remap_vid_word lay addr pg).2.1
  frame := remap_vid_frame lay addr pg h

/-- The program page is another one. -/
theorem VideoPage.remap {lay : Layout} {pg : Paging} {base : ℕ} (h : VideoPage lay pg base)
    (pa : ℕ) : VideoPage lay (remap _128MB pa pg) base := by
  have hother : (Kernel391.remap _128MB pa pg).page_directory videoEntry =
      pg.page_directory videoEntry := remap_directory_of_ne pg pa (by decide)
  constructor
  · rw [hother]
    exact h.p
  · rw [hother]
    exact h.ps
  · rw [hother]
    exact h.us
  · rw [hother]
    exact h.table
  · exact h.pte_p
  · exact h.pte_us
  · exact h.frame

/-- What user mode reaches through it. -/
theorem VideoPage.userTranslate {lay : Layout} {pg : Paging} {base : ℕ}
    (h : VideoPage lay pg base) (mem : ℕ → ℕ → Word) {o : ℕ} (ho : o < four_KB) :
    userTranslate lay pg mem (BitVec.ofNat 32 (_132MB + o)) = some (base * four_KB + o) := by
  simp only [four_KB] at ho
  have hva : (BitVec.ofNat 32 (_132MB + o)).toNat = _132MB + o := by
    rw [BitVec.toNat_ofNat, _132MB]
    omega
  have hdir : (_132MB + o) / four_MB = videoEntry := by
    simp only [_132MB, four_MB, videoEntry]
    omega
  have htab : (_132MB + o) / four_KB % NUMBER_ENTRIES = 0 := by
    simp only [_132MB, four_KB, NUMBER_ENTRIES]
    omega
  have hoff : (_132MB + o) % four_KB = o := by
    simp only [_132MB, four_KB]
    omega
  have htranslate : translate lay pg mem (BitVec.ofNat 32 (_132MB + o)) =
      some { addr := base * four_KB + o, us := true } := by
    unfold translate
    dsimp only
    rw [hva, hdir, htab, hoff, if_neg (by rw [h.p]; decide), if_neg (by rw [h.ps]; decide),
      h.table, tableWord, if_pos rfl, if_neg (by rw [h.pte_p]; decide), h.frame, h.us, h.pte_us]
    rfl
  unfold Kernel391.userTranslate
  rw [htranslate]
  rfl

/-! ## `set_up_PD_PT` -/

section
variable (lay : Layout) (pg : Paging)

theorem set_up_PD_PT_absent {i : ℕ} (h2 : 2 ≤ i) (hlt : i < NUMBER_ENTRIES) :
    PDE_4MB.p.get ((set_up_PD_PT lay pg).page_directory i) = 0 := by
  unfold set_up_PD_PT
  dsimp only
  rw [if_pos ⟨h2, hlt⟩]
  simp (disch := decide) only [assign_cons, assign_nil, BitField.get_set_of_disjoint,
    BitField.get_set_self]
  rfl

/-- Entries 0 and 1 are not touched by the last loop. -/
theorem set_up_PD_PT_low :
    PDE_4MB.ps.get ((set_up_PD_PT lay pg).page_directory 0) = 0 ∧
      PDE_4KB.page_table_base_addr.get ((set_up_PD_PT lay pg).page_directory 0) = lay.pt_frame ∧
      PDE_4MB.us.get ((set_up_PD_PT lay pg).page_directory 0) = 0 := by
  unfold set_up_PD_PT
  dsimp only
  rw [if_neg (by decide), setEntry_of_ne _ _ _ (by decide), setEntry_self, ← PDE_4KB.ps_eq,
    ← PDE_4KB.us_eq]
  refine ⟨?_, ?_, ?_⟩
  · simp (disch := decide) only [assign_cons, assign_nil, BitField.get_set_of_disjoint,
      BitField.get_set_self]
    rfl
  · simp (disch := decide) only [assign_cons, assign_nil, BitField.get_set_self]
    exact Nat.mod_eq_of_lt (pt_frame_lt lay)
  · simp (disch := decide) only [assign_cons, assign_nil, BitField.get_set_of_disjoint,
      BitField.get_set_self]
    rfl

theorem set_up_PD_PT_kernel :
    PDE_4MB.ps.get ((set_up_PD_PT lay pg).page_directory 1) = 1 ∧
      PDE_4MB.us.get ((set_up_PD_PT lay pg).page_directory 1) = 0 := by
  unfold set_up_PD_PT
  dsimp only
  rw [if_neg (by decide), setEntry_self]
  constructor <;>
  · simp (disch := decide) only [assign_cons, assign_nil, BitField.get_set_of_disjoint,
      BitField.get_set_self]
    rfl

theorem set_up_PD_PT_table {i : ℕ} (hlt : i < NUMBER_ENTRIES) :
    PTE.p.get ((set_up_PD_PT lay pg).page_table i) =
        (if i ≥ VIDEO_ADDR ∧ i ≤ VIDEO_ADDR + 3 then 1 else 0) ∧
      PTE.us.get ((set_up_PD_PT lay pg).page_table i) = 0 ∧
      PTE.page_base_addr.get ((set_up_PD_PT lay pg).page_table i) = i := by
  unfold set_up_PD_PT
  dsimp only
  rw [setEntry_page_table, setEntry_page_table]
  dsimp only
  rw [if_pos hlt]
  refine ⟨?_, ?_, ?_⟩
  · simp (disch := decide) only [assign_cons, assign_nil, BitField.get_set_of_disjoint,
      BitField.get_set_self]
    split_ifs <;> rfl
  · simp (disch := decide) only [assign_cons, assign_nil, BitField.get_set_of_disjoint,
      BitField.get_set_self]
    rfl
  · simp (disch := decide) only [assign_cons, assign_nil, BitField.get_set_self]
    show i % 2 ^ 20 = i
    simp only [NUMBER_ENTRIES] at hlt
    omega

end

theorem set_up_PD_PT_ok (lay : Layout) (pg : Paging) : TablesOk lay (set_up_PD_PT lay pg) where
  low_ps := (set_up_PD_PT_low lay pg).1
  low_table := (set_up_PD_PT_low lay pg).2.1
  low_us := (set_up_PD_PT_low lay pg).2.2
  kernel_ps := (set_up_PD_PT_kernel lay pg).1
  kernel_us := (set_up_PD_PT_kernel lay pg).2
  video := Or.inl (set_up_PD_PT_absent lay pg (by decide) (by decide))
  absent := fun i h2 hlt _ _ => set_up_PD_PT_absent lay pg h2 hlt
  screen := by
    intro i hlt
    obtain ⟨hp, -, hbase⟩ := set_up_PD_PT_table lay pg hlt
    rw [hp, hbase]
    by_cases hi : i ≥ VIDEO_ADDR ∧ i ≤ VIDEO_ADDR + 3
    · exact Or.inr hi
    · exact Or.inl (if_neg hi)
  supervisor := fun i hlt _ => (set_up_PD_PT_table lay pg hlt).2.1

end Kernel391
