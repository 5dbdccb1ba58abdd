import Kernel391.PagingTheorems
import Kernel391.CommandTheorems

/-!
# What a remapping leaves alone

`remap` writes one directory entry, that of the program page at 128 MB. `remap_vid` writes
the one at 132 MB and then the first word of the page table, and that table also serves
directory entry 0: the page opened at 132 MB for user mode appears at address 0 for the
kernel, whose page 0 was not present to catch null pointers, and the screens of the kernel
appear again above 132 MB.

`access` is the page walk with both permissions. `remap_access` says what it finds after a
call of `remap`, and `remap_vid_low`, `remap_vid_page`, `remap_vid_mirror` and
`remap_vid_outside` what it finds after a call of `remap_vid`. A sequence of calls keeps
each to its own range exactly if `remap_vid` is not among them
(`remap_ranges_iff`).
-/

namespace Kernel391

/-! ## The walk with its permissions -/

/-- What a present mapping gives: the physical address, and whether it is open to user mode
and to writes. -/
structure PageAccess where
  addr : ℕ
  us : Bool
  rw : Bool
deriving DecidableEq

/-- Translation and permissions of a virtual address, those of a 4 KB page taken from both
levels; `none` when it is not mapped. -/
def access (lay : Layout) (pg : Paging) (mem : ℕ → ℕ → Word) (va : Word) : Option PageAccess :=
  let pde := pg.page_directory (va.toNat / four_MB)
  if PDE_4MB.p.get pde = 0 then none
  else if PDE_4MB.ps.get pde = 1 then
    some { addr := PDE_4MB.page_base_addr.get pde * four_MB + va.toNat % four_MB,
           us := PDE_4MB.us.get pde = 1,
           rw := PDE_4MB.rw.get pde = 1 }
  else
    let pte := tableWord lay pg mem (PDE_4KB.page_table_base_addr.get pde)
      (va.toNat / four_KB % NUMBER_ENTRIES)
    if PTE.p.get pte = 0 then none
    else
      some { addr := PTE.page_base_addr.get pte * four_KB + va.toNat % four_KB,
             us := PDE_4KB.us.get pde = 1 ∧ PTE.us.get pte = 1,
             rw := PDE_4KB.rw.get pde = 1 ∧ PTE.rw.get pte = 1 }

section
variable (lay : Layout) (mem : ℕ → ℕ → Word) {pg pg' : Paging} {va : Word}

/-- It is `translate`, with the write permission kept. -/
theorem access_translate (pg : Paging) (va : Word) :
    (access lay pg mem va).map (fun m => { addr := m.addr, us := m.us : Mapping }) =
      translate lay pg mem va := by
  unfold access translate
  dsimp only
  split_ifs <;> rfl

/-- The walk reads one directory entry and one word of the page table. -/
theorem access_congr
    (hpde : pg'.page_directory (va.toNat / four_MB) = pg.page_directory (va.toNat / four_MB))
    (hpte : pg'.page_table (va.toNat / four_KB % NUMBER_ENTRIES) =
      pg.page_table (va.toNat / four_KB % NUMBER_ENTRIES)) :
    access lay pg' mem va = access lay pg mem va := by
  unfold access tableWord
  dsimp only
  rw [hpde, hpte]

/-- And no table where the entry maps a 4 MB page or nothing. -/
theorem access_congr_4MB
    (hpde : pg'.page_directory (va.toNat / four_MB) = pg.page_directory (va.toNat / four_MB))
    (hbig : PDE_4MB.p.get (pg.page_directory (va.toNat / four_MB)) = 0 ∨
      PDE_4MB.ps.get (pg.page_directory (va.toNat / four_MB)) = 1) :
    access lay pg' mem va = access lay pg mem va := by
  unfold access
  dsimp only
  rw [hpde]
  rcases hbig with hp | hps
  · rw [if_pos hp, if_pos hp]
  · rw [if_pos hps, if_pos hps]

theorem access_absent (h : PDE_4MB.p.get (pg.page_directory (va.toNat / four_MB)) = 0) :
    access lay pg mem va = none := by
  unfold access
  exact if_pos h

end

theorem directory_lt (va : Word) : va.toNat / four_MB < NUMBER_ENTRIES := by
  have hlt := va.isLt
  simp only [four_MB, NUMBER_ENTRIES]
  omega

theorem table_lt (va : Word) : va.toNat / four_KB % NUMBER_ENTRIES < NUMBER_ENTRIES :=
  Nat.mod_lt _ (by decide)

/-- A page of 4 KB is an entry of the directory and one of its table. -/
theorem page_split (va : Word) :
    va.toNat / four_KB =
      va.toNat / four_MB * NUMBER_ENTRIES + va.toNat / four_KB % NUMBER_ENTRIES := by
  simp only [four_KB, four_MB, NUMBER_ENTRIES]
  omega

/-! ## `remap` -/

section
variable (lay : Layout) (mem : ℕ → ℕ → Word) (pg : Paging)

/-- The 4 MB at 128 MB are mapped to the frame asked for, and the rest is as before. -/
theorem remap_access {p : Word} (hp : p.toNat % four_MB = 0) (va : Word) :
    access lay (remap _128MB p.toNat pg) mem va =
      if va.toNat / four_MB = userEntry then
        some { addr := p.toNat + va.toNat % four_MB, us := true, rw := true }
      else access lay pg mem va := by
  by_cases hva : va.toNat / four_MB = userEntry
  · rw [if_pos hva]
    obtain ⟨hpres, hps, hus, hrw⟩ := remap_entry pg p.toNat
    have hframe := (remap_user pg p.isLt).frame
    have hbase : p.toNat / four_MB * four_MB = p.toNat :=
      Nat.div_mul_cancel (Nat.dvd_of_mod_eq_zero hp)
    unfold access
    dsimp only
    rw [hva, hpres, if_neg one_ne_zero, if_pos hps, hframe, hus, hrw, hbase]
    rfl
  · rw [if_neg hva]
    exact access_congr lay mem (remap_directory_of_ne pg _ hva) rfl

/-! ## `remap_vid` -/

/-- Directory entry 0 as `set_up_PD_PT` leaves it, and no third way into the page table. -/
structure SharedTable (lay : Layout) (pg : Paging) : Prop where
  p : PDE_4KB.p.get (pg.page_directory 0) = 1
  ps : PDE_4KB.ps.get (pg.page_directory 0) = 0
  us : PDE_4KB.us.get (pg.page_directory 0) = 0
  rw : PDE_4KB.rw.get (pg.page_directory 0) = 1
  table : PDE_4KB.page_table_base_addr.get (pg.page_directory 0) = lay.pt_frame
  other : ∀ i < NUMBER_ENTRIES, i ≠ 0 → i ≠ videoEntry →
    PDE_4MB.p.get (pg.page_directory i) = 0 ∨ PDE_4MB.ps.get (pg.page_directory i) = 1

variable {lay pg}

/-- The low 4 MB are read through the page table, for the kernel only. -/
theorem SharedTable.access_low (h : SharedTable lay pg) {va : Word}
    (hva : va.toNat / four_MB = 0) :
    access lay pg mem va =
      if PTE.p.get (pg.page_table (va.toNat / four_KB)) = 0 then none
      else
        some { addr := PTE.page_base_addr.get (pg.page_table (va.toNat / four_KB)) * four_KB +
                 va.toNat % four_KB,
               us := false,
               rw := PTE.rw.get (pg.page_table (va.toNat / four_KB)) = 1 } := by
  have hp : ¬ PDE_4MB.p.get (pg.page_directory 0) = 0 := by
    rw [show PDE_4MB.p = PDE_4KB.p from rfl, h.p]
    exact one_ne_zero
  have hps : ¬ PDE_4MB.ps.get (pg.page_directory 0) = 1 := by
    rw [← PDE_4KB.ps_eq, h.ps]
    exact zero_ne_one
  have hindex : va.toNat / four_KB % NUMBER_ENTRIES = va.toNat / four_KB := by
    rw [page_split va, hva, Nat.zero_mul, Nat.zero_add, Nat.mod_mod]
  unfold access
  dsimp only
  rw [hva, if_neg hp, if_neg hps, h.table, tableWord, if_pos rfl, hindex, h.us, h.rw]
  simp

end

section
variable {lay : Layout} (mem : ℕ → ℕ → Word) {pg : Paging} (q : Word)

/-- Entry 0 is kept, and no other way into the page table opened. -/
theorem SharedTable.congr {pg' : Paging} (h : SharedTable lay pg)
    (hlow : pg'.page_directory 0 = pg.page_directory 0)
    (hother : ∀ i < NUMBER_ENTRIES, i ≠ 0 → i ≠ videoEntry →
      PDE_4MB.p.get (pg'.page_directory i) = 0 ∨ PDE_4MB.ps.get (pg'.page_directory i) = 1) :
    SharedTable lay pg' := by
  refine ⟨?_, ?_, ?_, ?_, ?_, hother⟩
  · rw [hlow]
    exact h.p
  · rw [hlow]
    exact h.ps
  · rw [hlow]
    exact h.us
  · rw [hlow]
    exact h.rw
  · rw [hlow]
    exact h.table

theorem SharedTable.remap_vid (h : SharedTable lay pg) (pa : ℕ) :
    SharedTable lay (remap_vid lay _132MB pa pg) := by
  refine h.congr (remap_vid_directory_of_ne lay pa pg (by decide)) fun i hi h0 hv => ?_
  rw [remap_vid_directory_of_ne lay pa pg hv]
  exact h.other i hi h0 hv

theorem SharedTable.remap (h : SharedTable lay pg) (pa : ℕ) :
    SharedTable lay (remap _128MB pa pg) := by
  refine h.congr (remap_directory_of_ne pg pa (by decide)) fun i hi h0 hv => ?_
  by_cases hu : i = userEntry
  · rw [hu]
    exact Or.inr (remap_entry pg pa).2.1
  · rw [remap_directory_of_ne pg pa hu]
    exact h.other i hi h0 hv

/-- The page opened at 132 MB is what the kernel finds at address 0. -/
theorem remap_vid_low (h : SharedTable lay pg) (hq : q.toNat % four_KB = 0) {va : Word}
    (hva : va.toNat < four_KB) :
    access lay (remap_vid lay _132MB q.toNat pg) mem va =
      some { addr := q.toNat + va.toNat, us := false, rw := true } := by
  have hbase : q.toNat / four_KB * four_KB = q.toNat :=
    Nat.div_mul_cancel (Nat.dvd_of_mod_eq_zero hq)
  have hdir : va.toNat / four_MB = 0 := by
    simp only [four_KB] at hva
    simp only [four_MB]
    omega
  obtain ⟨hp, -, hrw⟩ := remap_vid_word lay q.toNat pg
  rw [(h.remap_vid q.toNat).access_low mem hdir, Nat.div_eq_of_lt hva, hp,
    if_neg one_ne_zero, remap_vid_frame lay q.toNat pg q.isLt, hbase, Nat.mod_eq_of_lt hva, hrw]
  rfl

/-- At 132 MB user mode finds it as asked for. -/
theorem remap_vid_page (hq : q.toNat % four_KB = 0) {va : Word}
    (hva : va.toNat / four_KB = videoEntry * NUMBER_ENTRIES) :
    access lay (remap_vid lay _132MB q.toNat pg) mem va =
      some { addr := q.toNat + va.toNat % four_KB, us := true, rw := true } := by
  have hbase : q.toNat / four_KB * four_KB = q.toNat :=
    Nat.div_mul_cancel (Nat.dvd_of_mod_eq_zero hq)
  have hdir : va.toNat / four_MB = videoEntry := by
    simp only [four_KB, videoEntry, NUMBER_ENTRIES] at hva
    simp only [four_MB, videoEntry]
    omega
  have hindex : va.toNat / four_KB % NUMBER_ENTRIES = 0 := by
    rw [hva]
    exact Nat.mul_mod_left ..
  obtain ⟨hp, hus, hrw⟩ := remap_vid_entry lay q.toNat pg
  obtain ⟨hps, htable⟩ := remap_vid_video lay q.toNat pg
  obtain ⟨hpte, hpteus, hpterw⟩ := remap_vid_word lay q.toNat pg
  unfold access
  dsimp only
  rw [hdir, hindex, show PDE_4MB.p = PDE_4KB.p from rfl, hp, if_neg one_ne_zero, hps,
    if_neg zero_ne_one, htable, tableWord, if_pos rfl, hpte, if_neg one_ne_zero,
    remap_vid_frame lay q.toNat pg q.isLt, hbase, hus, hrw, hpteus, hpterw]
  rfl

/-- The rest of the 4 MB at 132 MB shows what the low 4 MB show. -/
theorem remap_vid_mirror (h : SharedTable lay pg)
    (hsuper : ∀ i < NUMBER_ENTRIES, i ≠ 0 → PTE.us.get (pg.page_table i) = 0) {va low : Word}
    (hva : va.toNat / four_MB = videoEntry) (hlow : va.toNat = _132MB + low.toNat)
    (hpage : four_KB ≤ low.toNat) :
    access lay (remap_vid lay _132MB q.toNat pg) mem va = access lay pg mem low := by
  have hdir : low.toNat / four_MB = 0 := by
    simp only [four_MB, videoEntry] at hva
    simp only [four_MB]
    simp only [_132MB] at hlow
    omega
  have hindex : va.toNat / four_KB % NUMBER_ENTRIES = low.toNat / four_KB := by
    simp only [four_MB] at hdir
    simp only [four_KB, NUMBER_ENTRIES, hlow, _132MB]
    omega
  have hoff : va.toNat % four_KB = low.toNat % four_KB := by
    simp only [four_KB, hlow, _132MB]
    omega
  have hne : low.toNat / four_KB ≠ 0 := by
    simp only [four_KB] at hpage
    simp only [four_KB]
    omega
  have hlt : low.toNat / four_KB < NUMBER_ENTRIES := by
    rw [← hindex]
    exact table_lt va
  obtain ⟨hp, hus, hrw⟩ := remap_vid_entry lay q.toNat pg
  obtain ⟨hps, htable⟩ := remap_vid_video lay q.toNat pg
  rw [h.access_low mem hdir]
  unfold access
  dsimp only
  rw [hva, hindex, hoff, show PDE_4MB.p = PDE_4KB.p from rfl, hp, if_neg one_ne_zero, hps,
    if_neg zero_ne_one, htable, tableWord, if_pos rfl, hus, hrw,
    remap_vid_table_of_ne lay q.toNat pg hne, hsuper _ hlt hne]
  simp

/-- Every other address is translated as before, but for those of page 0. -/
theorem remap_vid_outside (h : SharedTable lay pg) {va : Word}
    (hva : va.toNat / four_MB ≠ videoEntry) (hpage : four_KB ≤ va.toNat) :
    access lay (remap_vid lay _132MB q.toNat pg) mem va = access lay pg mem va := by
  have hdir := remap_vid_directory_of_ne lay q.toNat pg hva
  by_cases h0 : va.toNat / four_MB = 0
  · -- the same page table, at another word
    have hne : va.toNat / four_KB % NUMBER_ENTRIES ≠ 0 := by
      have hsplit := page_split va
      rw [h0, Nat.zero_mul, Nat.zero_add] at hsplit
      rw [← hsplit]
      simp only [four_KB] at hpage
      simp only [four_KB]
      omega
    exact access_congr lay mem hdir (remap_vid_table_of_ne lay q.toNat pg hne)
  · exact access_congr_4MB lay mem hdir (h.other _ (directory_lt va) h0 hva)

end

/-! ## After `set_up_PD_PT` -/

section
variable (lay : Layout) (pg : Paging) (mem : ℕ → ℕ → Word)

theorem set_up_PD_PT_low_open :
    PDE_4KB.p.get ((set_up_PD_PT lay pg).page_directory 0) = 1 ∧
      PDE_4KB.rw.get ((set_up_PD_PT lay pg).page_directory 0) = 1 := by
  unfold set_up_PD_PT
  dsimp only
  rw [if_neg (by decide), setEntry_of_ne _ _ _ (by decide), setEntry_self]
  constructor <;>
  · simp (disch := decide) only [assign_cons, assign_nil, BitField.get_set_of_disjoint,
      BitField.get_set_self]
    rfl

theorem set_up_PD_PT_shared : SharedTable lay (set_up_PD_PT lay pg) where
  p := (set_up_PD_PT_low_open lay pg).1
  ps := (set_up_PD_PT_low lay pg).1
  us := (set_up_PD_PT_low lay pg).2.2
  rw := (set_up_PD_PT_low_open lay pg).2
  table := (set_up_PD_PT_low lay pg).2.1
  other := by
    intro i hi h0 hv
    by_cases h1 : i = 1
    · rw [h1]
      exact Or.inr (set_up_PD_PT_kernel lay pg).1
    · exact Or.inl (set_up_PD_PT_absent lay pg ((Nat.two_le_iff i).mpr ⟨h0, h1⟩) hi)

/-- Page 0 catches null pointers. -/
theorem set_up_PD_PT_page_zero {va : Word} (hva : va.toNat < four_KB) :
    access lay (set_up_PD_PT lay pg) mem va = none := by
  have hdir : va.toNat / four_MB = 0 := by
    simp only [four_KB] at hva
    simp only [four_MB]
    omega
  have hword := (set_up_PD_PT_table lay pg (i := 0) (by decide)).1
  rw [(set_up_PD_PT_shared lay pg).access_low mem hdir, Nat.div_eq_of_lt hva, hword]
  rfl

/-- Nothing is mapped above the kernel's page. -/
theorem set_up_PD_PT_high {va : Word} (hva : 2 ≤ va.toNat / four_MB) :
    access lay (set_up_PD_PT lay pg) mem va = none :=
  access_absent lay mem (set_up_PD_PT_absent lay pg hva (directory_lt va))

end

/-! ## Sequences of calls -/

/-- A call, with the physical address it asks for. -/
inductive RemapCall
  | remap (physical_addr : Word)
  | remap_vid (physical_addr : Word)
deriving DecidableEq

namespace RemapCall

/-- The addresses to be mapped. -/
def Within : RemapCall → Word → Prop
  | remap _, va => _128MB ≤ va.toNat ∧ va.toNat < _132MB
  | remap_vid _, va => _132MB ≤ va.toNat ∧ va.toNat < _132MB + four_KB

/-- A page goes to a frame of its size. -/
def Aligned : RemapCall → Prop
  | remap p => p.toNat % four_MB = 0
  | remap_vid q => q.toNat % four_KB = 0

def run (lay : Layout) (pg : Paging) : RemapCall → Paging
  | remap p => Kernel391.remap _128MB p.toNat pg
  | remap_vid q => Kernel391.remap_vid lay _132MB q.toNat pg

end RemapCall

/-- The tables after a sequence of calls. -/
def afterCalls (lay : Layout) (pg : Paging) (calls : List RemapCall) : Paging :=
  calls.foldl (RemapCall.run lay) pg

/-- Each call of the sequence touches its own range only, page 0 stays not present, and every
other mapping that user mode may not use stays as it was. -/
structure KeepsToRanges (lay : Layout) (mem : ℕ → ℕ → Word) (pg : Paging)
    (calls : List RemapCall) : Prop where
  range : ∀ before c later, calls = before ++ c :: later → ∀ va, ¬ c.Within va →
    access lay (c.run lay (afterCalls lay pg before)) mem va =
      access lay (afterCalls lay pg before) mem va
  page_zero : ∀ before later, calls = before ++ later → ∀ va : Word, va.toNat < four_KB →
    access lay (afterCalls lay pg before) mem va = none
  supervisor : ∀ before later, calls = before ++ later → ∀ va m,
    access lay pg mem va = some m → m.us = false →
      access lay (afterCalls lay pg before) mem va = some m

section
variable {lay : Layout} {pg : Paging} (mem : ℕ → ℕ → Word)

theorem SharedTable.run (h : SharedTable lay pg) (c : RemapCall) :
    SharedTable lay (c.run lay pg) := by
  cases c with
  | remap p => exact h.remap p.toNat
  | remap_vid q => exact h.remap_vid q.toNat

theorem SharedTable.afterCalls (h : SharedTable lay pg) (calls : List RemapCall) :
    SharedTable lay (afterCalls lay pg calls) := by
  induction calls generalizing pg with
  | nil => exact h
  | cons c calls ih => exact ih (h.run c)

/-- `remap` keeps to its range, whatever the tables hold. -/
theorem remap_outside (p : Word) {va : Word} (hva : va.toNat / four_MB ≠ userEntry) :
    access lay (remap _128MB p.toNat pg) mem va = access lay pg mem va :=
  access_congr lay mem (remap_directory_of_ne pg _ hva) rfl

/-- Addresses no call changes: those of neither entry 32 nor 33, outside page 0. -/
theorem SharedTable.run_outside (h : SharedTable lay pg) (c : RemapCall) {va : Word}
    (hu : va.toNat / four_MB ≠ userEntry) (hv : va.toNat / four_MB ≠ videoEntry)
    (hpage : four_KB ≤ va.toNat) : access lay (c.run lay pg) mem va = access lay pg mem va := by
  cases c with
  | remap p => exact remap_outside mem p hu
  | remap_vid q => exact remap_vid_outside mem q h hv hpage

theorem SharedTable.afterCalls_outside (h : SharedTable lay pg) (calls : List RemapCall)
    {va : Word} (hu : va.toNat / four_MB ≠ userEntry) (hv : va.toNat / four_MB ≠ videoEntry)
    (hpage : four_KB ≤ va.toNat) :
    access lay (Kernel391.afterCalls lay pg calls) mem va = access lay pg mem va := by
  induction calls generalizing pg with
  | nil => rfl
  | cons c calls ih => exact (ih (h.run c)).trans (h.run_outside mem c hu hv hpage)

/-- Without `remap_vid` they include page 0 and the addresses at 132 MB. -/
theorem afterCalls_remaps {calls : List RemapCall} (h : ∀ c ∈ calls, ∃ p, c = .remap p)
    {va : Word} (hu : va.toNat / four_MB ≠ userEntry) :
    access lay (Kernel391.afterCalls lay pg calls) mem va = access lay pg mem va := by
  induction calls generalizing pg with
  | nil => rfl
  | cons c calls ih =>
    obtain ⟨p, rfl⟩ := h c (List.mem_cons_self ..)
    have hrest : access lay (Kernel391.afterCalls lay (remap _128MB p.toNat pg) calls) mem va =
        access lay (remap _128MB p.toNat pg) mem va :=
      ih fun c hc => h c (List.mem_cons_of_mem _ hc)
    exact hrest.trans (remap_outside mem p hu)

/-- A call of `remap_vid` opens page 0 to the kernel. -/
theorem SharedTable.page_zero_present (h : SharedTable lay pg) (q : Word) :
    access lay ((RemapCall.remap_vid q).run lay pg) mem 0 ≠ none := by
  have hp := (remap_vid_word lay q.toNat pg).1
  have hlow := (h.remap_vid q.toNat).access_low mem
    (show (0 : Word).toNat / four_MB = 0 from rfl)
  show access lay (Kernel391.remap_vid lay _132MB q.toNat pg) mem 0 ≠ none
  rw [hlow, show (0 : Word).toNat / four_KB = 0 from rfl, hp, if_neg one_ne_zero]
  exact Option.some_ne_none _

end

section
variable (lay : Layout) (pg : Paging) (mem : ℕ → ℕ → Word)

/-- What `set_up_PD_PT` maps stays mapped through any calls. -/
theorem set_up_PD_PT_kept (calls : List RemapCall) {va : Word} {m : PageAccess}
    (h : access lay (set_up_PD_PT lay pg) mem va = some m) :
    access lay (afterCalls lay (set_up_PD_PT lay pg) calls) mem va = some m := by
  have hlow : ¬ 2 ≤ va.toNat / four_MB := fun hhigh =>
    Option.some_ne_none m (h.symm.trans (set_up_PD_PT_high lay pg mem hhigh))
  have hpage : ¬ va.toNat < four_KB := fun hzero =>
    Option.some_ne_none m (h.symm.trans (set_up_PD_PT_page_zero lay pg mem hzero))
  have hu : va.toNat / four_MB ≠ userEntry := by
    simp only [userEntry]
    omega
  have hv : va.toNat / four_MB ≠ videoEntry := by
    simp only [videoEntry]
    omega
  have hkept := (set_up_PD_PT_shared lay pg).afterCalls_outside mem calls hu hv
    (Nat.le_of_not_lt hpage)
  exact hkept.trans h

/-- Calls of `remap` keep to their range, and calls of `remap_vid` never do. -/
theorem remap_ranges_iff (calls : List RemapCall) :
    KeepsToRanges lay mem (set_up_PD_PT lay pg) calls ↔ ∀ c ∈ calls, ∃ p, c = .remap p := by
  constructor
  · intro h c hc
    obtain ⟨before, later, rfl⟩ := List.append_of_mem hc
    cases c with
    | remap p => exact ⟨p, rfl⟩
    | remap_vid q =>
      -- the state right after it has page 0 present
      have hshared := (set_up_PD_PT_shared lay pg).afterCalls before
      have hzero := h.page_zero (before ++ [.remap_vid q]) later (List.append_cons ..) 0
        (by decide)
      rw [afterCalls, List.foldl_append] at hzero
      exact absurd hzero (hshared.page_zero_present mem q)
  · intro h
    refine ⟨?_, ?_, ?_⟩
    · rintro before c later rfl va hva
      obtain ⟨p, rfl⟩ := h c (List.mem_append_right _ (List.mem_cons_self ..))
      refine remap_outside mem p fun hu => hva ?_
      simp only [four_MB, userEntry] at hu
      simp only [RemapCall.Within, _128MB, _132MB]
      omega
    · rintro before later rfl va hva
      have hu : va.toNat / four_MB ≠ userEntry := by
        simp only [four_KB] at hva
        simp only [four_MB, userEntry]
        omega
      rw [afterCalls_remaps mem (fun c hc => h c (List.mem_append_left _ hc)) hu]
      exact set_up_PD_PT_page_zero lay pg mem hva
    · intro before _ _ va m hm _
      exact set_up_PD_PT_kept lay pg mem before hm

end

/-- The tables as `set_up_PD_PT` leaves cleared ones. -/
def bootTables : Paging :=
  set_up_PD_PT sampleLayout { page_directory := fun _ => 0, page_table := fun _ => 0 }

/-- Video memory mapped at 132 MB, the first call after the tables are set up: address 0
becomes present as well, and so does 0xB8000 above 132 MB. -/
theorem remap_vid_opens_page_zero :
    (RemapCall.remap_vid 0xB8000).Aligned ∧
    access sampleLayout bootTables (fun _ _ => 0) 0 = none ∧
    access sampleLayout ((RemapCall.remap_vid 0xB8000).run sampleLayout bootTables)
      (fun _ _ => 0) 0 = some { addr := 0xB8000, us := false, rw := true } ∧
    access sampleLayout bootTables (fun _ _ => 0) 0x84B8000 = none ∧
    access sampleLayout ((RemapCall.remap_vid 0xB8000).run sampleLayout bootTables)
      (fun _ _ => 0) 0x84B8000 = some { addr := 0xB8000, us := false, rw := true } ∧
    ¬ KeepsToRanges sampleLayout (fun _ _ => 0) bootTables [.remap_vid 0xB8000] := by
  refine ⟨rfl, by decide +kernel, by decide +kernel, by decide +kernel, by decide +kernel,
    fun h => ?_⟩
  have hzero := h.page_zero [.remap_vid 0xB8000] [] rfl 0 (by decide)
  exact SharedTable.page_zero_present (fun _ _ => 0) (set_up_PD_PT_shared ..) 0xB8000 hzero

end Kernel391
