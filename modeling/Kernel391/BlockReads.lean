import Kernel391.Buffers
import Kernel391.Lib.Traced

/-!
# Reads at the ends of blocks and of the image

`read_data` looks for the next data block as soon as it has taken the last byte of one,
whether it has to go on or not, and it looks at the number of every block but the first.
Three questions come down to these two habits: when a read returns what the file holds
(`read_exact_iff`), when it stays inside the image (`read_data_inside_iff`), and when a
descriptor that is read keeps its position on failure (`file_read_position_iff`).
-/

namespace Kernel391

open Stream Trace

/-! ## The value returned -/

section
variable {img : Image} {inode offset length : ℕ}

variable (offset length) in
/-- A read that exists fails on the block behind its last byte and on nothing else. -/
theorem read_data_ret (hinode : inode < img.num_inodes) :
    (read_data img inode offset length).ret =
      if 0 < (read_data img inode offset length).stored.length ∧
          img.BlockMissing inode (offset + (read_data img inode offset length).stored.length)
        then -1
      else toInt32 (read_data img inode offset length).stored.length := by
  split_ifs with hfail
  · have hsize : FOUR_KB = 4096 := rfl
    unfold read_data at hfail ⊢
    rw [if_neg (Nat.not_le.mpr hinode)] at hfail ⊢
    refine readDataFrom_missing (i := 0) ⟨rfl, ?_, rfl⟩ hfail.1 hfail.2
    rw [hsize]
    omega
  · rcases (read_data_reads offset length hinode).ret with hret | ⟨-, hpositive, hmissing⟩
    · rw [Nat.zero_add] at hret
      exact hret
    · exact absurd ⟨hpositive, hmissing⟩ hfail

/-- A byte behind which a block is missing is the last one. -/
theorem ReadsFrom.length_eq {pos n i j : ℕ} {r : ReadResult}
    (h : ReadsFrom img inode pos n i r) (hj : j < n) (hreads : img.Reads inode pos j)
    (hmissing : img.BlockMissing inode (pos + j + 1)) : r.stored.length = j + 1 := by
  have hlast := (h.count j).mpr ⟨hj, hreads⟩
  have hnext := h.count (j + 1)
  rw [Image.reads_step] at hnext
  by_contra hne
  exact (hnext.mp (by omega)).2.2.2 hmissing

/-! ## Exact reads -/

/-- A read returns the number of bytes that the file has to offer, and stores these. -/
def ReadExact (img : Image) (inode offset length : ℕ) : Prop :=
  (read_data img inode offset length).ret = (min length (img.length inode - offset) : ℕ) ∧
    (read_data img inode offset length).stored = piece (img.file inode) offset length

instance (img : Image) (inode offset length : ℕ) :
    Decidable (ReadExact img inode offset length) := by
  unfold ReadExact
  infer_instance

/-- On a file that has its blocks a read is exact if and only if it is empty or no block is
missing right behind its last byte. -/
theorem read_exact_iff (hinode : inode < img.num_inodes) (hcovered : Covered img inode)
    (hoffset : offset < img.length inode) (hlength : length < 2 ^ 31) :
    ReadExact img inode offset length ↔ length = 0 ∨
      ¬ img.BlockMissing inode (offset + min length (img.length inode - offset)) := by
  have hstored := hcovered.stored hinode (Nat.le_of_lt hoffset) length
  have hlen : (read_data img inode offset length).stored.length =
      min length (img.length inode - offset) := by
    rw [hstored, length_piece, Image.length_file]
  have hret := read_data_ret offset length hinode
  rw [hlen] at hret
  unfold ReadExact
  rw [and_iff_left hstored, hret]
  by_cases hfail : 0 < min length (img.length inode - offset) ∧
      img.BlockMissing inode (offset + min length (img.length inode - offset))
  · rw [if_pos hfail]
    refine iff_of_false (by omega) ?_
    rintro (hzero | hblock)
    · omega
    · exact hblock hfail.2
  · rw [if_neg hfail, toInt32_eq (by omega)]
    refine iff_of_true rfl ?_
    by_cases hzero : length = 0
    · exact Or.inl hzero
    · exact Or.inr fun hmissing => hfail ⟨by omega, hmissing⟩

end

/-- The first four bytes of the shell. -/
theorem read_exact_sample : ReadExact sampleImage 0 0 4 := by
  refine (read_exact_iff (by decide +kernel) ⟨by decide +kernel, fun k hk => ?_⟩
    (by decide +kernel) (by decide)).mpr (Or.inr (by decide +kernel))
  have hlength : sampleImage.length 0 = 28 := by decide +kernel
  have hsize : FOUR_KB = 4096 := rfl
  rw [hsize] at hk
  have hk : k = 0 := by omega
  rw [hk]
  decide +kernel

/-- The image with a file that fills its block, and no second one. -/
def fullBlockImage : Image := fun a =>
  if a = 4096 then 0 else if a = 4097 then 0x10 else if a = 4104 then 1 else sampleImage a

/-- Its last byte cannot be read. -/
theorem read_not_exact : ¬ ∀ (img : Image) (inode offset length : ℕ), inode < img.num_inodes →
    Covered img inode → offset < img.length inode → length < 2 ^ 31 →
      ReadExact img inode offset length := by
  intro hall
  have hlength : fullBlockImage.length 0 = 4096 := by decide +kernel
  have hsize : FOUR_KB = 4096 := rfl
  have hexact := hall fullBlockImage 0 4095 1 (by decide +kernel)
    ⟨by decide +kernel, fun k hk => ?_⟩ (by decide +kernel) (by decide)
  · revert hexact
    decide +kernel
  · rw [hsize] at hk
    have hk : k = 0 := by omega
    rw [hk]
    decide +kernel

/-! ## Accesses -/

/-- What `read_data` does with an inode and the data blocks. -/
inductive Access where
  /-- `inode_block->data_block[j]` -/
  | index (j : ℕ)
  /-- A byte is copied from this offset. -/
  | copy (data_ptr : ℕ)

/-- An inode block has 1023 entries, and the data blocks have numbers. -/
def Access.Inside (img : Image) : Access → Prop
  | .index j => j < 1023
  | .copy data_ptr =>
    ∃ b < img.num_data_blocks, img.data_start b ≤ data_ptr ∧ data_ptr < img.data_start b + FOUR_KB

/-- `readDataFrom` with its accesses. The number of the next block is looked at for the check
and once more for the pointer. -/
def readDataSteps (img : Image) (inode offset : ℕ) :
    (n i data_block_index data_line_index data_ptr : ℕ) → Traced Access ReadResult
  | 0, i, _, _, _ => pure { ret := toInt32 i, stored := [] }
  | n + 1, i, data_block_index, data_line_index, data_ptr =>
    if (i + offset) % addressSpace ≥ img.length inode then
      pure { ret := toInt32 i, stored := [] }
    else do
      Traced.emit (.copy data_ptr)
      let b := img.byte data_ptr
      if (data_line_index + 1) % FOUR_KB = 0 then do
        Traced.emit (.index (data_block_index + 1))
        let next := img.data_block inode (data_block_index + 1)
        if next ≥ img.num_data_blocks then pure { ret := -1, stored := [b] }
        else do
          let r ← readDataSteps img inode offset n (i + 1) (data_block_index + 1)
            (data_line_index + 1) (img.data_start next)
          pure (r.store b)
      else do
        let r ← readDataSteps img inode offset n (i + 1) data_block_index (data_line_index + 1)
          (data_ptr + 1)
        pure (r.store b)

/-- `read_data` with its accesses. The first block is located before the loop. -/
def readDataTraced (img : Image) (inode offset length : ℕ) : Traced Access ReadResult :=
  if inode ≥ img.num_inodes then pure { ret := -1, stored := [] }
  else do
    let data_block_index := offset / FOUR_KB
    let data_line_index := offset % FOUR_KB
    Traced.emit (.index data_block_index)
    readDataSteps img inode offset length 0 data_block_index data_line_index
      (img.data_start (img.data_block inode data_block_index) + data_line_index)

section
variable {img : Image} {inode offset length : ℕ}

theorem readDataSteps_result (n i dbi dli ptr : ℕ) :
    (readDataSteps img inode offset n i dbi dli ptr).result =
      some (readDataFrom img inode offset n i dbi dli ptr) := by
  induction n generalizing i dbi dli ptr with
  | zero => rfl
  | succ n ih =>
    rw [readDataSteps, readDataFrom]
    by_cases hend : (i + offset) % addressSpace ≥ img.length inode
    · rw [if_pos hend, if_pos hend]
      rfl
    rw [if_neg hend, if_neg hend]
    by_cases hline : (dli + 1) % FOUR_KB = 0
    · simp only [if_pos hline]
      by_cases hnone : img.data_block inode (dbi + 1) ≥ img.num_data_blocks
      · simp only [if_pos hnone]
        rfl
      · simp only [if_neg hnone, Traced.result_bind, ih]
        rfl
    · simp only [if_neg hline, Traced.result_bind, ih]
      rfl

/-- The accesses are those of `read_data`. -/
theorem readDataTraced_result :
    (readDataTraced img inode offset length).result = some (read_data img inode offset length) := by
  unfold readDataTraced read_data
  by_cases hinode : inode ≥ img.num_inodes
  · rw [if_pos hinode, if_pos hinode]
    rfl
  · rw [if_neg hinode, if_neg hinode]
    exact readDataSteps_result _ _ _ _ _

/-- Where byte `i` of a file lies. -/
def Image.file_ptr (img : Image) (inode i : ℕ) : ℕ :=
  img.data_start (img.data_block inode (i / FOUR_KB)) + i % FOUR_KB

/-- The accesses made for the byte at a position, the last of a block or another one. -/
def ByteAccess (img : Image) (inode pos : ℕ) (a : Access) : Prop :=
  a = .copy (img.file_ptr inode pos) ∨
    (pos + 1) % FOUR_KB = 0 ∧ a = .index ((pos + 1) / FOUR_KB)

/-- The bytes a read gets to are the first one, and those a read from the next position
gets to. -/
theorem exists_reads_succ {pos n : ℕ} {P : ℕ → Prop} :
    (∃ j < n + 1, img.Reads inode pos j ∧ P (pos + j)) ↔
      pos % addressSpace < img.length inode ∧ (P pos ∨ ¬ img.BlockMissing inode (pos + 1) ∧
        ∃ j < n, img.Reads inode (pos + 1) j ∧ P (pos + 1 + j)) := by
  constructor
  · rintro ⟨j, hj, hreads, hP⟩
    refine ⟨hreads.1 0 (Nat.zero_le j), ?_⟩
    cases j with
    | zero => exact Or.inl hP
    | succ j =>
      obtain ⟨-, hblock, hrest⟩ := Image.reads_succ.mp hreads
      rw [show pos + (j + 1) = pos + 1 + j by omega] at hP
      exact Or.inr ⟨hblock, j, by omega, hrest, hP⟩
  · rintro ⟨hend, hP | ⟨hblock, j, hj, hreads, hP⟩⟩
    · exact ⟨0, Nat.succ_pos n, Image.reads_zero.mpr hend, hP⟩
    · refine ⟨j + 1, by omega, Image.reads_succ.mpr ⟨hend, hblock, hreads⟩, ?_⟩
      rw [show pos + (j + 1) = pos + 1 + j by omega]
      exact hP

/-- The loop makes the accesses for the bytes it gets to, and no others. -/
theorem mem_readDataSteps {n i dbi dli ptr : ℕ} (h : AtByte img inode (offset + i) dbi dli ptr)
    (a : Access) : a ∈ (readDataSteps img inode offset n i dbi dli ptr).events ↔
      ∃ j < n, img.Reads inode (offset + i) j ∧ ByteAccess img inode (offset + i + j) a := by
  induction n generalizing i dbi dli ptr with
  | zero =>
    refine iff_of_false List.not_mem_nil ?_
    rintro ⟨j, hj, -⟩
    exact absurd hj (Nat.not_lt_zero j)
  | succ n ih =>
    obtain rfl : ptr = img.file_ptr inode (offset + i) := h.ptr
    rw [exists_reads_succ (P := fun pos => ByteAccess img inode pos a), readDataSteps,
      Nat.add_comm i offset]
    by_cases hend : (offset + i) % addressSpace ≥ img.length inode
    · rw [if_pos hend]
      exact iff_of_false List.not_mem_nil fun hin => absurd hin.1 (Nat.not_lt.mpr hend)
    rw [if_neg hend, and_iff_right (Nat.lt_of_not_le hend), Traced.mem_events_emit_bind,
      ByteAccess, or_assoc]
    refine or_congr_right ?_
    by_cases hline : (dli + 1) % FOUR_KB = 0
    · obtain ⟨hzero, hindex, hnext⟩ := h.nextBlock hline
      simp only [if_pos hline]
      rw [Traced.mem_events_emit_bind, and_iff_right hzero, hindex]
      refine or_congr_right ?_
      have hmissing : img.BlockMissing inode (offset + i + 1) ↔
          img.data_block inode ((offset + i + 1) / FOUR_KB) ≥ img.num_data_blocks :=
        and_iff_right hzero
      rw [hmissing]
      by_cases hnone : img.data_block inode ((offset + i + 1) / FOUR_KB) ≥ img.num_data_blocks
      · rw [if_pos hnone]
        exact iff_of_false List.not_mem_nil fun hin => hin.1 hnone
      · rw [if_neg hnone, and_iff_right hnone, Traced.mem_events_bind_pure]
        rw [hindex] at hnext
        exact ih (i := i + 1) hnext
    · have hzero : ¬ (offset + i + 1) % FOUR_KB = 0 := by
        have hsize : FOUR_KB = 4096 := rfl
        have hdli := h.line
        rw [hsize] at hline hdli ⊢
        omega
      simp only [if_neg hline]
      rw [Traced.mem_events_bind_pure, or_iff_right fun hin => hzero hin.1,
        and_iff_right (h.not_missing hline)]
      exact ih (i := i + 1) (h.next hline)

/-- All accesses of `read_data`. -/
theorem mem_readDataTraced (offset length : ℕ) (hinode : inode < img.num_inodes) (a : Access) :
    a ∈ (readDataTraced img inode offset length).events ↔ a = .index (offset / FOUR_KB) ∨
      ∃ j < length, img.Reads inode offset j ∧ ByteAccess img inode (offset + j) a := by
  have hsize : FOUR_KB = 4096 := rfl
  unfold readDataTraced
  rw [if_neg (Nat.not_le.mpr hinode), Traced.mem_events_emit_bind]
  refine or_congr_right (mem_readDataSteps (i := 0) ⟨rfl, ?_, rfl⟩ a)
  rw [hsize]
  omega

/-- A byte lies in a data block if its block has a number of one. -/
theorem inside_file_ptr (pos : ℕ) : (Access.copy (img.file_ptr inode pos)).Inside img ↔
    img.data_block inode (pos / FOUR_KB) < img.num_data_blocks := by
  have hsize : FOUR_KB = 4096 := rfl
  unfold Access.Inside Image.file_ptr Image.data_start
  dsimp only
  rw [hsize]
  constructor
  · rintro ⟨b, hb, hlo, hhi⟩
    omega
  · intro hblock
    exact ⟨_, hblock, by omega, by omega⟩

/-- A read that gets to a byte of a later block has looked at the number of that block. -/
theorem Image.Reads.block {j k : ℕ} (h : img.Reads inode offset j) (hk : offset / FOUR_KB < k)
    (hj : k * FOUR_KB ≤ offset + j) : img.data_block inode k < img.num_data_blocks := by
  have hsize : FOUR_KB = 4096 := rfl
  rw [hsize] at hk hj
  have hblock := h.2 (k * 4096 - offset - 1) (by omega)
  rw [show offset + (k * 4096 - offset - 1) + 1 = k * 4096 by omega] at hblock
  by_contra hmissing
  refine hblock ⟨?_, ?_⟩
  · rw [hsize]
    omega
  · rw [hsize, show k * 4096 / 4096 = k by omega]
    exact Nat.le_of_not_lt hmissing

/-! ## Staying inside -/

/-- Every access lies inside the image, and a read that needs a block without a valid number
fails. -/
def StaysInside (img : Image) (inode offset length : ℕ) : Prop :=
  (readDataTraced img inode offset length).Always (Access.Inside img) ∧
    ∀ j < length, (∀ i ≤ j, (offset + i) % addressSpace < img.length inode) →
      img.num_data_blocks ≤ img.data_block inode ((offset + j) / FOUR_KB) →
        (read_data img inode offset length).ret = -1

/-- The offset has an entry in the inode, the block of the first byte exists, and the read
does not get to the end of the last entry: the request or the file ends before, or a block
in between is missing. -/
structure InsideOk (img : Image) (inode offset length : ℕ) : Prop where
  index : offset / FOUR_KB < 1023
  first : length = 0 ∨ img.length inode ≤ offset ∨
    img.data_block inode (offset / FOUR_KB) < img.num_data_blocks
  last : offset + length < 1023 * FOUR_KB ∨ img.length inode < 1023 * FOUR_KB ∨
    ∃ k, offset / FOUR_KB < k ∧ k < 1023 ∧ img.num_data_blocks ≤ img.data_block inode k

/-- With an entry for the offset, the end of the last entry is reached unless something comes
before it. -/
theorem reads_last_entry (hindex : offset / FOUR_KB < 1023)
    (hlength : 1023 * FOUR_KB ≤ img.length inode)
    (hblocks : ∀ k, offset / FOUR_KB < k → k < 1023 →
      img.data_block inode k < img.num_data_blocks) :
    img.Reads inode offset (1023 * FOUR_KB - 1 - offset) := by
  have hsize : FOUR_KB = 4096 := rfl
  rw [hsize] at hindex hlength ⊢
  refine ⟨fun j hj => ?_, fun j hj hmissing => ?_⟩
  · rw [addressSpace, Nat.mod_eq_of_lt (by omega)]
    omega
  · obtain ⟨hzero, hnone⟩ := hmissing
    rw [hsize] at hzero hnone
    have hblock := hblocks ((offset + j + 1) / 4096) (by rw [hsize]; omega) (by omega)
    omega

/-- A block that is needed and missing, unless it is the first. -/
theorem read_data_needed {j : ℕ} (hinode : inode < img.num_inodes) (hj : j < length)
    (hend : ∀ i ≤ j, (offset + i) % addressSpace < img.length inode)
    (hlater : offset / FOUR_KB < (offset + j) / FOUR_KB)
    (hnone : img.num_data_blocks ≤ img.data_block inode ((offset + j) / FOUR_KB)) :
    (read_data img inode offset length).ret = -1 := by
  have hcount := (read_data_reads offset length hinode).count
  have hlater' : ¬ img.Reads inode offset j := fun hreads =>
    absurd hnone (Nat.not_le.mpr (hreads.block hlater (Nat.div_mul_le_self _ _)))
  rw [read_data_ret _ _ hinode, if_pos]
  generalize (read_data img inode offset length).stored.length = n at hcount ⊢
  -- the read stores a byte, and stops before byte `j`
  have hfirst : 0 < n := (hcount 0).mpr ⟨by omega, Image.reads_zero.mpr (hend 0 (by omega))⟩
  have hstop : n ≤ j := by
    by_contra hlt
    exact hlater' ((hcount j).mp (by omega)).2
  refine ⟨hfirst, ?_⟩
  obtain ⟨i, rfl⟩ : ∃ i, n = i + 1 := ⟨n - 1, by omega⟩
  have hlast := ((hcount i).mp (Nat.lt_succ_self i)).2
  by_contra hblock
  have hnext : img.Reads inode offset (i + 1) :=
    Image.reads_step.mpr ⟨hlast, hend (i + 1) hstop, hblock⟩
  exact absurd ((hcount (i + 1)).mpr ⟨by omega, hnext⟩) (Nat.lt_irrefl _)

/-- Positions of the blocks that have an entry do not wrap around. -/
theorem lt_of_index (hindex : offset / FOUR_KB < 1023) : offset < 1023 * 4096 := by
  have hsize : FOUR_KB = 4096 := rfl
  rw [hsize] at hindex
  omega

/-- A byte read lies in the block of the first one or in a later one. -/
theorem block_cases (offset j : ℕ) : (offset + j) / FOUR_KB = offset / FOUR_KB ∨
    offset / FOUR_KB < (offset + j) / FOUR_KB := by
  have hle : offset / FOUR_KB ≤ (offset + j) / FOUR_KB :=
    Nat.div_le_div_right (Nat.le_add_right offset j)
  exact (Nat.eq_or_lt_of_le hle).imp_left Eq.symm

/-- The first byte of a request that the file can answer is read. -/
theorem reads_first (hindex : offset / FOUR_KB < 1023) (hend : offset < img.length inode) :
    img.Reads inode offset 0 := by
  have hrange := lt_of_index hindex
  rw [Image.reads_zero, addressSpace, Nat.mod_eq_of_lt (by omega)]
  exact hend

namespace InsideOk

/-- The accesses that are made for any contents of the image tell all of it. -/
theorem of_always (hinode : inode < img.num_inodes)
    (hall : (readDataTraced img inode offset length).Always (Access.Inside img)) :
    InsideOk img inode offset length := by
  have hsize : FOUR_KB = 4096 := rfl
  have hmem := mem_readDataTraced offset length hinode
  have hindex : offset / FOUR_KB < 1023 := hall _ ((hmem _).mpr (Or.inl rfl))
  have hrange := lt_of_index hindex
  refine ⟨hindex, ?_, ?_⟩
  · by_contra hnot
    have hreads : img.Reads inode offset 0 := reads_first hindex (by omega)
    have hcopy := hall _ ((hmem _).mpr (Or.inr ⟨0, by omega, hreads, Or.inl rfl⟩))
    rw [inside_file_ptr, Nat.add_zero] at hcopy
    omega
  · by_contra hnot
    simp only [not_or, not_exists, not_and, Nat.not_lt, Nat.not_le] at hnot
    obtain ⟨hrequest, hlength, hblocks⟩ := hnot
    have hreads := reads_last_entry hindex hlength hblocks
    rw [hsize] at hrequest hreads
    -- the byte at the end of the last entry makes the loop look for one more
    have hlast := hall (.index 1023) ((hmem _).mpr (Or.inr
      ⟨1023 * 4096 - 1 - offset, by omega, hreads, Or.inr ⟨?_, ?_⟩⟩))
    · exact absurd hlast (Nat.lt_irrefl 1023)
    · rw [hsize]
      omega
    · rw [hsize, show offset + (1023 * 4096 - 1 - offset) + 1 = 1023 * 4096 by omega]

variable (h : InsideOk img inode offset length)
include h

/-- The block of the first byte, if that is asked for and in the file. -/
theorem first_block (hlength : 0 < length) (hend : offset % addressSpace < img.length inode) :
    img.data_block inode (offset / FOUR_KB) < img.num_data_blocks := by
  have hrange := lt_of_index h.index
  rw [addressSpace, Nat.mod_eq_of_lt (by omega)] at hend
  rcases h.first with hzero | hshort | hblock
  · omega
  · omega
  · exact hblock

/-- A byte that is read lies in a data block. -/
theorem copy_inside {j : ℕ} (hj : j < length) (hreads : img.Reads inode offset j) :
    (Access.copy (img.file_ptr inode (offset + j))).Inside img := by
  rw [inside_file_ptr]
  rcases block_cases offset j with hsame | hlater
  · rw [hsame]
    exact h.first_block (by omega) (hreads.1 0 (Nat.zero_le j))
  · exact hreads.block hlater (Nat.div_mul_le_self _ _)

/-- The entry looked at behind the last byte of a block exists. -/
theorem index_inside {j : ℕ} (hj : j < length) (hreads : img.Reads inode offset j)
    (hzero : (offset + j + 1) % FOUR_KB = 0) : (offset + j + 1) / FOUR_KB < 1023 := by
  have hsize : FOUR_KB = 4096 := rfl
  have hrange := lt_of_index h.index
  by_contra hout
  rw [hsize] at hzero hout
  rcases h.last with hrequest | hlength | ⟨k, hk, hk', hnone⟩
  · rw [hsize] at hrequest
    omega
  · have hbyte := hreads.1 (1023 * 4096 - 1 - offset) (by omega)
    rw [addressSpace, Nat.mod_eq_of_lt (by omega)] at hbyte
    rw [hsize] at hlength
    omega
  · have hblock := hreads.block hk (by rw [hsize]; omega)
    omega

theorem always (hinode : inode < img.num_inodes) :
    (readDataTraced img inode offset length).Always (Access.Inside img) := by
  intro a ha
  rcases (mem_readDataTraced offset length hinode a).mp ha with rfl |
    ⟨j, hj, hreads, rfl | ⟨hzero, rfl⟩⟩
  · exact h.index
  · exact h.copy_inside hj hreads
  · exact h.index_inside hj hreads hzero

theorem fails_without_block (hinode : inode < img.num_inodes) {j : ℕ} (hj : j < length)
    (hend : ∀ i ≤ j, (offset + i) % addressSpace < img.length inode)
    (hnone : img.num_data_blocks ≤ img.data_block inode ((offset + j) / FOUR_KB)) :
    (read_data img inode offset length).ret = -1 := by
  rcases block_cases offset j with hsame | hlater
  · -- the first block is there
    rw [hsame] at hnone
    exact absurd (h.first_block (by omega) (hend 0 (Nat.zero_le j))) (Nat.not_lt.mpr hnone)
  · exact read_data_needed hinode hj hend hlater hnone

end InsideOk

/-- A read stays inside the image if and only if that is so. -/
theorem read_data_inside_iff (hinode : inode < img.num_inodes) :
    StaysInside img inode offset length ↔ InsideOk img inode offset length := by
  constructor
  · rintro ⟨hall, -⟩
    exact InsideOk.of_always hinode hall
  · intro hok
    exact ⟨hok.always hinode, fun j hj hend hnone => hok.fails_without_block hinode hj hend hnone⟩

end

/-- A read of the shell from its start. -/
theorem read_data_inside_sample : StaysInside sampleImage 0 0 28 :=
  (read_data_inside_iff (by decide +kernel)).mpr
    ⟨by decide, Or.inr (Or.inr (by decide +kernel)), Or.inl (by decide)⟩

/-- The image with a file whose only block has a number that does not exist. -/
def strayBlockImage : Image := fun a => if a = 4100 then 5 else sampleImage a

/-- Its first byte is read all the same, from behind the image. -/
theorem read_data_outside : ¬ ∀ (img : Image) (inode offset length : ℕ),
    inode < img.num_inodes → StaysInside img inode offset length := by
  intro hall
  have hinside := (hall strayBlockImage 0 0 1 (by decide +kernel)).2 0 Nat.one_pos
  have hret := hinside (fun i hi => ?_) (by decide +kernel)
  · revert hret
    decide +kernel
  · rw [Nat.le_zero.mp hi]
    decide +kernel

/-! ## The position after a failure -/

/-- `file_read` leaves the position alone when it fails, and moves it by what it returns when
it does not. -/
def PositionKept (m : Machine) (fd : Fd) (nbytes : ℤ) (k : Kernel) : Prop :=
  let pos := ((k.pcb k.cur_pid).fd_table fd).file_position
  let pos' := (((file_read m fd nbytes k).1.pcb k.cur_pid).fd_table fd).file_position
  let ret := (file_read m fd nbytes k).2.ret
  (ret = -1 → pos' = pos) ∧ (0 ≤ ret → (pos' : ℤ) = pos + ret)

/-- The read gets past no byte behind which a block is missing, and it does not take all of
`2 ^ 32 - 1` bytes, a number that is -1 as well. -/
structure PositionOk (img : Image) (inode pos n : ℕ) : Prop where
  exists_inode : inode < img.num_inodes
  blocks : ∀ j < n, img.Reads inode pos j → ¬ img.BlockMissing inode (pos + j + 1)
  short : ¬ (n = 2 ^ 32 - 1 ∧ img.Reads inode pos (2 ^ 32 - 2))

theorem Image.length_lt (img : Image) (inode : ℕ) : img.length inode < 2 ^ 32 := by
  have hword : img.length inode = (img.byte (inode_block inode)).toNat +
      2 ^ 8 * (img.byte (inode_block inode + 1)).toNat +
      2 ^ 16 * (img.byte (inode_block inode + 2)).toNat +
      2 ^ 24 * (img.byte (inode_block inode + 3)).toNat := rfl
  have h0 := (img.byte (inode_block inode)).toNat_lt
  have h1 := (img.byte (inode_block inode + 1)).toNat_lt
  have h2 := (img.byte (inode_block inode + 2)).toNat_lt
  have h3 := (img.byte (inode_block inode + 3)).toNat_lt
  omega

/-- No read gets to the last position there is, as no file is that long. -/
theorem Image.Reads.pos_lt {img : Image} {inode pos j : ℕ} (h : img.Reads inode pos j)
    (hpos : pos < 2 ^ 32) : pos + j < 2 ^ 32 - 1 := by
  have hlength := img.length_lt inode
  by_contra hout
  have hlast := h.1 (2 ^ 32 - 1 - pos) (by omega)
  rw [addressSpace, show pos + (2 ^ 32 - 1 - pos) = 2 ^ 32 - 1 by omega,
    Nat.mod_eq_of_lt (by omega)] at hlast
  omega

theorem toInt32_eq_neg_one {n : ℕ} (hn : n < 2 ^ 32) : toInt32 n = -1 ↔ n = 2 ^ 32 - 1 := by
  unfold toInt32 addressSpace
  rw [Int.bmod_def]
  split_ifs <;> omega

theorem toUnsigned_natCast {n : ℕ} (hn : n < 2 ^ 32) : toUnsigned n = n := by
  unfold toUnsigned addressSpace
  omega

theorem toUnsigned_lt (n : ℤ) : toUnsigned n < 2 ^ 32 := by
  unfold toUnsigned addressSpace
  omega

section
variable {m : Machine} {k : Kernel} {fd : Fd} {nbytes : ℤ} {img : Image} {inode pos n : ℕ}

/-- When a read of `n` bytes returns -1. -/
theorem read_data_fails_iff (hn : n < 2 ^ 32) :
    (read_data img inode pos n).ret = -1 ↔ ¬ PositionOk img inode pos n := by
  by_cases hinode : inode < img.num_inodes
  swap
  · unfold read_data
    rw [if_pos (Nat.le_of_not_lt hinode)]
    exact iff_of_true rfl fun hok => hinode hok.exists_inode
  have hread := read_data_reads pos n hinode
  have hlen : (read_data img inode pos n).stored.length ≤ n := by
    by_contra hlong
    exact Nat.lt_irrefl n ((hread.count n).mp (by omega)).1
  rw [read_data_ret _ _ hinode]
  constructor
  · intro hret hok
    split_ifs at hret with hfail
    · -- the block behind the last byte
      obtain ⟨hpositive, hmissing⟩ := hfail
      have hlast := (hread.count ((read_data img inode pos n).stored.length - 1)).mp (by omega)
      refine hok.blocks _ hlast.1 hlast.2 ?_
      rw [show pos + ((read_data img inode pos n).stored.length - 1) + 1 =
        pos + (read_data img inode pos n).stored.length by omega]
      exact hmissing
    · rw [toInt32_eq_neg_one (by omega)] at hret
      exact hok.short ⟨by omega, ((hread.count (2 ^ 32 - 2)).mp (by omega)).2⟩
  · intro hnot
    by_contra hret
    split_ifs at hret with hfail
    · exact hret rfl
    rw [toInt32_eq_neg_one (by omega)] at hret
    refine hnot ⟨hinode, fun j hj hreads hmissing => ?_, ?_⟩
    · have hlast := hread.length_eq hj hreads hmissing
      rw [hlast] at hfail
      exact hfail ⟨Nat.succ_pos j, hmissing⟩
    · rintro ⟨hall, hreads⟩
      have hlast := (hread.count (2 ^ 32 - 2)).mpr ⟨by omega, hreads⟩
      omega

/-- A count returned is that of the bytes stored, and they lie before the last position. -/
theorem read_data_count (hpos : pos < 2 ^ 32) (hn : n < 2 ^ 32)
    (hret : 0 ≤ (read_data img inode pos n).ret) :
    (read_data img inode pos n).ret = (read_data img inode pos n).stored.length ∧
      pos + (read_data img inode pos n).stored.length < 2 ^ 32 := by
  by_cases hinode : inode < img.num_inodes
  swap
  · unfold read_data at hret
    rw [if_pos (Nat.le_of_not_lt hinode)] at hret
    exact absurd hret (by decide)
  have hcount := (read_data_reads pos n hinode).count
  rw [read_data_ret _ _ hinode] at hret ⊢
  generalize (read_data img inode pos n).stored.length = len at *
  have hlen : len ≤ n := by
    by_contra hlong
    exact Nat.lt_irrefl n ((hcount n).mp (by omega)).1
  constructor
  · split_ifs at hret ⊢ with hfail
    · exact absurd hret (by decide)
    · unfold toInt32 addressSpace at hret ⊢
      rw [Int.bmod_def] at hret ⊢
      split_ifs at hret ⊢ <;> omega
  · rcases Nat.eq_zero_or_pos len with hzero | hpositive
    · omega
    · have hlast := ((hcount (len - 1)).mp (by omega)).2.pos_lt hpos
      omega

/-- The position moves by the value returned, as an unsigned number. -/
theorem file_read_position (m : Machine) (fd : Fd) (nbytes : ℤ) (k : Kernel) :
    (((file_read m fd nbytes k).1.pcb k.cur_pid).fd_table fd).file_position =
      (((k.pcb k.cur_pid).fd_table fd).file_position +
        toUnsigned (file_read m fd nbytes k).2.ret) % addressSpace := by
  unfold file_read
  dsimp only
  rw [setDesc_fd_table, if_pos ⟨rfl, rfl⟩]

/-- A read keeps the position right if and only if it does not fail. -/
theorem positionKept_iff (hpos : ((k.pcb k.cur_pid).fd_table fd).file_position < addressSpace) :
    PositionKept m fd nbytes k ↔ (file_read m fd nbytes k).2.ret ≠ -1 := by
  unfold PositionKept
  dsimp only
  rw [file_read_position]
  have hr : read_data m.img ((k.pcb k.cur_pid).fd_table fd).inode
      ((k.pcb k.cur_pid).fd_table fd).file_position (toUnsigned nbytes) =
      (file_read m fd nbytes k).2 := rfl
  generalize hdesc : (k.pcb k.cur_pid).fd_table fd = desc at *
  unfold addressSpace at hpos ⊢
  constructor
  · rintro ⟨hfail, -⟩ hret
    have hsame := hfail hret
    rw [hret, show toUnsigned (-1) = 2 ^ 32 - 1 by rfl] at hsame
    omega
  · intro hret
    refine ⟨fun hfail => absurd hfail hret, fun hcount => ?_⟩
    rw [← hr] at hcount ⊢
    obtain ⟨hret, hlt⟩ := read_data_count hpos (toUnsigned_lt nbytes) hcount
    rw [hret, toUnsigned_natCast (by omega), Nat.mod_eq_of_lt hlt, Nat.cast_add]

/-- So it does if and only if the request avoids the failures. -/
theorem file_read_position_iff
    (hpos : ((k.pcb k.cur_pid).fd_table fd).file_position < addressSpace) :
    PositionKept m fd nbytes k ↔ PositionOk m.img ((k.pcb k.cur_pid).fd_table fd).inode
      ((k.pcb k.cur_pid).fd_table fd).file_position (toUnsigned nbytes) := by
  rw [positionKept_iff hpos, ← not_iff_not, not_not]
  exact read_data_fails_iff (toUnsigned_lt nbytes)

end

/-- The first shell opens a file on which nothing is wrong. -/
theorem file_read_position_sample : ∃ k, Reachable sampleMachine k ∧
    PositionKept sampleMachine 2 4 k := by
  obtain ⟨k, hreach, hcheck⟩ := sampleRun_exists [.open_file (some sampleMachine.shell)]
    (fun k => decide (((k.pcb k.cur_pid).fd_table 2).file_position = 0 ∧
      ((k.pcb k.cur_pid).fd_table 2).inode = 0)) (by decide +kernel)
  rw [decide_eq_true_eq] at hcheck
  obtain ⟨hpos, hinode⟩ := hcheck
  have hzero : ((k.pcb k.cur_pid).fd_table 2).file_position < addressSpace := by
    rw [hpos]
    decide
  refine ⟨k, hreach, (file_read_position_iff hzero).mpr ?_⟩
  rw [hpos, hinode]
  refine ⟨by decide +kernel, fun j hj _ hmissing => ?_, fun h => absurd h.1 (by decide)⟩
  have hsize : FOUR_KB = 4096 := rfl
  have hj4 : j < 4 := hj
  have hzero := hmissing.1
  rw [hsize] at hzero
  omega

/-- The machine with a file whose inode does not exist. -/
def lostInodeImage : Image := fun a => if a = 164 then 9 else listedImage ['f'] 2 a

def lostInodeMachine : Machine :=
  imageMachine lostInodeImage (holdsExecutable_shell (i := 0)
    (by decide +kernel) (by decide +kernel) (by decide +kernel) (by decide +kernel))

/-- A read of it fails, and leaves the position at the largest number there is. -/
theorem file_read_position_moves : ¬ ∀ (m : Machine) (fd : Fd) (nbytes : ℤ) (k : Kernel),
    ((k.pcb k.cur_pid).fd_table fd).file_position < addressSpace →
      PositionKept m fd nbytes k := by
  intro hall
  have hkept := (hall lostInodeMachine 2 4 (open_func lostInodeMachine
    (some (literal ['f'] fun _ => 0)) sampleKernel).1 (by decide +kernel)).1
  revert hkept
  decide +kernel

end Kernel391
