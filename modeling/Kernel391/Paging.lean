import Kernel391.Lib.BitField
import Mathlib.Logic.Function.Basic

/-!
# Paging (`paging.c`)

The page directory and the one page table the kernel uses, as arrays of 32-bit words. The
C unions give each directory entry two views (`PDE_4MB` and `PDE_4KB`) over the same
bits; here a view is a set of `BitField`s, and every assignment of the source is one
`BitField.set`.

`translate` is the processor's two-level walk. The page table it reaches is found by its
physical frame number, so directory entries 0 and 33, which both point at
`page_table_array[0]`, share it here as they do in memory. Words of any other frame are
left to a parameter.
-/

namespace Kernel391

def NUMBER_ENTRIES : ℕ := 1024
def four_KB : ℕ := 4096
def four_MB : ℕ := 0x400000
def shift : ℕ := 12
def VIDEO_ADDR : ℕ := 0xB8

abbrev Word := BitVec 32

/-! ## Entry layouts -/

namespace PDE_4MB
def p : BitField := ⟨0, 1⟩
def rw : BitField := ⟨1, 1⟩
def us : BitField := ⟨2, 1⟩
def pwt : BitField := ⟨3, 1⟩
def pcd : BitField := ⟨4, 1⟩
def a : BitField := ⟨5, 1⟩
def d : BitField := ⟨6, 1⟩
def ps : BitField := ⟨7, 1⟩
def g : BitField := ⟨8, 1⟩
def avail : BitField := ⟨9, 3⟩
def pat : BitField := ⟨12, 1⟩
def reserved : BitField := ⟨13, 9⟩
def page_base_addr : BitField := ⟨22, 10⟩
end PDE_4MB

namespace PDE_4KB
def p : BitField := ⟨0, 1⟩
def rw : BitField := ⟨1, 1⟩
def us : BitField := ⟨2, 1⟩
def pwt : BitField := ⟨3, 1⟩
def pcd : BitField := ⟨4, 1⟩
def a : BitField := ⟨5, 1⟩
def reserved : BitField := ⟨6, 1⟩
def ps : BitField := ⟨7, 1⟩
def g : BitField := ⟨8, 1⟩
def avail : BitField := ⟨9, 3⟩
def page_table_base_addr : BitField := ⟨12, 20⟩
end PDE_4KB

namespace PTE
def p : BitField := ⟨0, 1⟩
def rw : BitField := ⟨1, 1⟩
def us : BitField := ⟨2, 1⟩
def pwt : BitField := ⟨3, 1⟩
def pcd : BitField := ⟨4, 1⟩
def a : BitField := ⟨5, 1⟩
def d : BitField := ⟨6, 1⟩
def pat : BitField := ⟨7, 1⟩
def g : BitField := ⟨8, 1⟩
def avail : BitField := ⟨9, 3⟩
def page_base_addr : BitField := ⟨12, 20⟩
end PTE

/-- Assign several fields of a word, left to right. -/
def assign (x : Word) (fields : List (BitField × ℕ)) : Word :=
  fields.foldl (fun x fv => fv.1.set x fv.2) x

/-! ## Tables -/

/-- Where the linker put the tables: page-aligned, in the kernel's 4 MB page. -/
structure Layout where
  page_directory_array : ℕ
  page_table_array : ℕ
  pd_aligned : page_directory_array % four_KB = 0
  pt_aligned : page_table_array % four_KB = 0
  pd_kernel : four_MB ≤ page_directory_array ∧ page_directory_array + four_KB ≤ 2 * four_MB
  pt_kernel : four_MB ≤ page_table_array ∧ page_table_array + four_KB ≤ 2 * four_MB

/-- Frame number of the page table, as `page_table >> shift` stores it. -/
def Layout.pt_frame (lay : Layout) : ℕ := lay.page_table_array >>> shift

/-- `page_directory_array[0]` and `page_table_array[0]`. -/
structure Paging where
  page_directory : ℕ → Word
  page_table : ℕ → Word

def Paging.setEntry (pg : Paging) (pde : ℕ) (fields : List (BitField × ℕ)) : Paging :=
  { pg with
    page_directory :=
      Function.update pg.page_directory pde (assign (pg.page_directory pde) fields) }

/-- Map the 4 MB page at `virtual_addr`, for user mode, to `physical_addr`. -/
def remap (virtual_addr physical_addr : ℕ) (pg : Paging) : Paging :=
  pg.setEntry (virtual_addr / four_MB)
    [(PDE_4MB.p, 1), (PDE_4MB.rw, 1), (PDE_4MB.us, 1), (PDE_4MB.pwt, 0), (PDE_4MB.pcd, 0),
      (PDE_4MB.a, 0), (PDE_4MB.d, 0), (PDE_4MB.ps, 1), (PDE_4MB.g, 0), (PDE_4MB.avail, 0),
      (PDE_4MB.pat, 0), (PDE_4MB.reserved, 0), (PDE_4MB.page_base_addr, physical_addr >>> 22)]

/-- Map the first 4 KB page at `virtual_addr`, for user mode, to `physical_addr`. -/
def remap_vid (lay : Layout) (virtual_addr physical_addr : ℕ) (pg : Paging) : Paging :=
  let pg := pg.setEntry (virtual_addr / four_MB)
    [(PDE_4KB.p, 1), (PDE_4KB.rw, 1), (PDE_4KB.us, 1), (PDE_4KB.pwt, 0), (PDE_4KB.pcd, 0),
      (PDE_4KB.a, 0), (PDE_4KB.reserved, 0), (PDE_4KB.ps, 0), (PDE_4KB.g, 0),
      (PDE_4KB.avail, 0), (PDE_4KB.page_table_base_addr, lay.pt_frame)]
  { pg with
    page_table := Function.update pg.page_table 0
      (assign (pg.page_table 0)
        [(PTE.rw, 1), (PTE.us, 1), (PTE.p, 1), (PTE.page_base_addr, physical_addr >>> shift)]) }

def set_up_PD_PT (lay : Layout) (pg : Paging) : Paging :=
  let pg := { pg with
    page_table := fun i =>
      if i < NUMBER_ENTRIES then
        assign (pg.page_table i)
          [(PTE.p, if i ≥ VIDEO_ADDR ∧ i ≤ VIDEO_ADDR + 3 then 1 else 0), (PTE.rw, 1),
            (PTE.us, 0), (PTE.pwt, 0), (PTE.pcd, 0), (PTE.a, 0), (PTE.d, 0), (PTE.pat, 0),
            (PTE.g, 0), (PTE.avail, 0), (PTE.page_base_addr, i)]
      else pg.page_table i }
  -- video memory, through the page table
  let pg := pg.setEntry 0
    [(PDE_4KB.p, 1), (PDE_4KB.rw, 1), (PDE_4KB.us, 0), (PDE_4KB.pwt, 0), (PDE_4KB.pcd, 0),
      (PDE_4KB.a, 0), (PDE_4KB.reserved, 0), (PDE_4KB.ps, 0), (PDE_4KB.g, 0),
      (PDE_4KB.avail, 0), (PDE_4KB.page_table_base_addr, lay.pt_frame)]
  -- the kernel's page
  let pg := pg.setEntry 1
    [(PDE_4MB.p, 1), (PDE_4MB.rw, 1), (PDE_4MB.us, 0), (PDE_4MB.pwt, 0), (PDE_4MB.pcd, 0),
      (PDE_4MB.a, 0), (PDE_4MB.d, 0), (PDE_4MB.ps, 1), (PDE_4MB.g, 1), (PDE_4MB.avail, 0),
      (PDE_4MB.pat, 0), (PDE_4MB.reserved, 0), (PDE_4MB.page_base_addr, 1)]
  { pg with
    -- the rest is not present
    page_directory := fun i =>
      if 2 ≤ i ∧ i < NUMBER_ENTRIES then
        assign (pg.page_directory i)
          [(PDE_4MB.p, 0), (PDE_4MB.rw, 1), (PDE_4MB.us, 0), (PDE_4MB.pwt, 0),
            (PDE_4MB.pcd, 0), (PDE_4MB.a, 0), (PDE_4MB.d, 0), (PDE_4MB.ps, 0), (PDE_4MB.g, 0),
            (PDE_4MB.avail, 0), (PDE_4MB.pat, 0), (PDE_4MB.reserved, 0),
            (PDE_4MB.page_base_addr, i)]
      else pg.page_directory i }

/-! ## The processor's page walk -/

/-- What a present mapping allows: the physical address, and whether user mode may use
it. -/
structure Mapping where
  addr : ℕ
  us : Bool
deriving DecidableEq

/-- Word `i` of the page table in frame `base`. -/
def tableWord (lay : Layout) (pg : Paging) (mem : ℕ → ℕ → Word) (base i : ℕ) : Word :=
  if base = lay.pt_frame then pg.page_table i else mem base i

/-- Translation of a virtual address; `none` when it is not mapped. -/
def translate (lay : Layout) (pg : Paging) (mem : ℕ → ℕ → Word) (va : Word) : Option Mapping :=
  let pde := pg.page_directory (va.toNat / four_MB)
  if PDE_4MB.p.get pde = 0 then none
  else if PDE_4MB.ps.get pde = 1 then
    some { addr := PDE_4MB.page_base_addr.get pde * four_MB + va.toNat % four_MB,
           us := PDE_4MB.us.get pde = 1 }
  else
    let pte := tableWord lay pg mem (PDE_4KB.page_table_base_addr.get pde)
      (va.toNat / four_KB % NUMBER_ENTRIES)
    if PTE.p.get pte = 0 then none
    else
      some { addr := PTE.page_base_addr.get pte * four_KB + va.toNat % four_KB,
             us := PDE_4KB.us.get pde = 1 ∧ PTE.us.get pte = 1 }

/-- Physical address user mode reaches at `va`, if it may. -/
def userTranslate (lay : Layout) (pg : Paging) (mem : ℕ → ℕ → Word) (va : Word) : Option ℕ :=
  match translate lay pg mem va with
  | some m => if m.us then some m.addr else none
  | none => none

/-! ## What a sequence of assignments leaves in a field -/

@[simp] theorem assign_nil (x : Word) : assign x [] = x := rfl

@[simp] theorem assign_cons (x : Word) (f : BitField) (v : ℕ) (fs : List (BitField × ℕ)) :
    assign x ((f, v) :: fs) = assign (f.set x v) fs := rfl

end Kernel391
