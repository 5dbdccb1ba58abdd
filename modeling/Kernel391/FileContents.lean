import Kernel391.FileSystem
import Kernel391.Lib.Stream
import Mathlib.Order.MinMax

/-!
# What `read_data` reads

The loop of `read_data` follows a pointer through one data block after the other. Here it is
compared with the file as a whole: byte `i` of a file lies in the data block the inode names
for it (`file_byte`), and the loop stores these bytes one by one as long as it finds them
(`Reads`). On an image whose inodes are in order that is a piece of the file
(`read_data_good`).
-/

namespace Kernel391

open Stream

namespace Image

/-- Byte `i` of the file of an inode. -/
def file_byte (img : Image) (inode i : ℕ) : UInt8 :=
  img.byte (img.data_start (img.data_block inode (i / FOUR_KB)) + i % FOUR_KB)

/-- A whole file. -/
def file (img : Image) (inode : ℕ) : List UInt8 :=
  (List.range (img.length inode)).map (img.file_byte inode)

@[simp] theorem length_file (img : Image) (inode : ℕ) :
    (img.file inode).length = img.length inode := by
  rw [file, List.length_map, List.length_range]

/-- The block at position `pos`, where a new block begins, does not exist. -/
def BlockMissing (img : Image) (inode pos : ℕ) : Prop :=
  pos % FOUR_KB = 0 ∧ img.num_data_blocks ≤ img.data_block inode (pos / FOUR_KB)

instance (img : Image) (inode pos : ℕ) : Decidable (img.BlockMissing inode pos) := by
  unfold BlockMissing
  infer_instance

/-- A read from position `pos` gets to its byte `i`: neither the end of the file nor a
missing block comes before. Positions are 32-bit numbers. -/
def Reads (img : Image) (inode pos i : ℕ) : Prop :=
  (∀ j ≤ i, (pos + j) % addressSpace < img.length inode) ∧
    ∀ j < i, ¬ img.BlockMissing inode (pos + j + 1)

theorem reads_zero {img : Image} {inode pos : ℕ} :
    img.Reads inode pos 0 ↔ pos % addressSpace < img.length inode := by
  constructor
  · intro h
    exact h.1 0 le_rfl
  · intro h
    refine ⟨fun j hj => ?_, fun j hj => absurd hj (Nat.not_lt_zero j)⟩
    rw [Nat.le_zero.mp hj]
    exact h

/-- The first byte, and then the rest. -/
theorem reads_succ {img : Image} {inode pos i : ℕ} :
    img.Reads inode pos (i + 1) ↔ pos % addressSpace < img.length inode ∧
      ¬ img.BlockMissing inode (pos + 1) ∧ img.Reads inode (pos + 1) i := by
  constructor
  · rintro ⟨hend, hblock⟩
    refine ⟨hend 0 (Nat.zero_le _), hblock 0 (Nat.succ_pos i), fun j hj => ?_, fun j hj => ?_⟩
    · have hnext := hend (j + 1) (by omega)
      rwa [show pos + (j + 1) = pos + 1 + j by omega] at hnext
    · have hnext := hblock (j + 1) (by omega)
      rwa [show pos + (j + 1) + 1 = pos + 1 + j + 1 by omega] at hnext
  · rintro ⟨hfirst, hmissing, hend, hblock⟩
    refine ⟨fun j hj => ?_, fun j hj => ?_⟩
    · cases j with
      | zero => exact hfirst
      | succ j =>
        rw [show pos + (j + 1) = pos + 1 + j by omega]
        exact hend j (by omega)
    · cases j with
      | zero => exact hmissing
      | succ j =>
        rw [show pos + (j + 1) + 1 = pos + 1 + j + 1 by omega]
        exact hblock j (by omega)

/-- Bytes up to one, and the next. -/
theorem reads_step {img : Image} {inode pos i : ℕ} :
    img.Reads inode pos (i + 1) ↔ img.Reads inode pos i ∧
      (pos + (i + 1)) % addressSpace < img.length inode ∧
      ¬ img.BlockMissing inode (pos + i + 1) := by
  constructor
  · rintro ⟨hend, hblock⟩
    exact ⟨⟨fun j hj => hend j (by omega), fun j hj => hblock j (by omega)⟩,
      hend (i + 1) le_rfl, hblock i (Nat.lt_succ_self i)⟩
  · rintro ⟨⟨hend, hblock⟩, hlast, hmissing⟩
    refine ⟨fun j hj => ?_, fun j hj => ?_⟩
    · by_cases hi : j = i + 1
      · rw [hi]
        exact hlast
      · exact hend j (by omega)
    · by_cases hi : j = i
      · rw [hi]
        exact hmissing
      · exact hblock j (by omega)

end Image

/-! ## The loop -/

/-- Where the loop stands when the next byte to read is at position `pos`. -/
structure AtByte (img : Image) (inode pos data_block_index data_line_index data_ptr : ℕ) :
    Prop where
  block : data_block_index = pos / FOUR_KB
  line : data_line_index % FOUR_KB = pos % FOUR_KB
  ptr : data_ptr = img.data_start (img.data_block inode (pos / FOUR_KB)) + pos % FOUR_KB

section
variable {img : Image} {inode pos dbi dli ptr : ℕ}

theorem AtByte.byte (h : AtByte img inode pos dbi dli ptr) :
    img.byte ptr = img.file_byte inode pos := by
  rw [h.ptr, Image.file_byte]

/-- Within a block. -/
theorem AtByte.next (h : AtByte img inode pos dbi dli ptr) (hline : ¬ (dli + 1) % FOUR_KB = 0) :
    AtByte img inode (pos + 1) dbi (dli + 1) (ptr + 1) := by
  obtain ⟨hblock, hdli, hptr⟩ := h
  have hsize : FOUR_KB = 4096 := rfl
  rw [hsize] at hblock hdli hptr hline
  have hsame : (pos + 1) / 4096 = pos / 4096 := by omega
  constructor
  · rw [hsize, hsame]
    exact hblock
  · rw [hsize]
    omega
  · rw [hsize, hsame, hptr]
    omega

/-- At the end of a block. -/
theorem AtByte.nextBlock (h : AtByte img inode pos dbi dli ptr) (hline : (dli + 1) % FOUR_KB = 0) :
    (pos + 1) % FOUR_KB = 0 ∧ dbi + 1 = (pos + 1) / FOUR_KB ∧
      AtByte img inode (pos + 1) (dbi + 1) (dli + 1)
        (img.data_start (img.data_block inode (dbi + 1))) := by
  obtain ⟨hblock, hdli, hptr⟩ := h
  have hsize : FOUR_KB = 4096 := rfl
  rw [hsize] at hblock hdli hptr hline
  have hzero : (pos + 1) % 4096 = 0 := by omega
  have hnext : dbi + 1 = (pos + 1) / 4096 := by omega
  refine ⟨hzero, hnext, hnext, ?_, ?_⟩
  · rw [hsize, hzero]
    exact hline
  · rw [hsize, hzero, hnext]
    rfl

/-- A block ends where the loop looks for the next one. -/
theorem AtByte.not_missing (h : AtByte img inode pos dbi dli ptr)
    (hline : ¬ (dli + 1) % FOUR_KB = 0) : ¬ img.BlockMissing inode (pos + 1) := by
  obtain ⟨-, hdli, -⟩ := h
  have hsize : FOUR_KB = 4096 := rfl
  rintro ⟨hzero, -⟩
  rw [hsize] at hdli hline hzero
  omega

end

/-- What the loop stores, and how it ends. -/
structure ReadsFrom (img : Image) (inode pos n i : ℕ) (r : ReadResult) : Prop where
  /-- The bytes that the read gets to are stored, and no others. -/
  count : ∀ j, j < r.stored.length ↔ j < n ∧ img.Reads inode pos j
  byte : ∀ j, j < r.stored.length → r.stored[j]? = some (img.file_byte inode (pos + j))
  /-- The count is returned unless a block is missing. -/
  ret : r.ret = toInt32 (i + r.stored.length) ∨
    r.ret = -1 ∧ 0 < r.stored.length ∧ img.BlockMissing inode (pos + r.stored.length)

namespace ReadsFrom

variable {img : Image} {inode pos n i : ℕ} {r : ReadResult}

/-- Nothing to read. -/
theorem nothing (h : n = 0 ∨ ¬ pos % addressSpace < img.length inode) :
    ReadsFrom img inode pos n i { ret := toInt32 i, stored := [] } := by
  refine ⟨fun j => ?_, fun j hj => absurd hj (Nat.not_lt_zero j), Or.inl ?_⟩
  swap
  · rw [List.length_nil, Nat.add_zero]
  refine iff_of_false (Nat.not_lt_zero j) ?_
  rintro ⟨hj, hreads⟩
  rcases h with h | h
  · omega
  · exact h (hreads.1 0 (Nat.zero_le j))

/-- One byte, and no block to go on with. -/
theorem last (hend : pos % addressSpace < img.length inode)
    (hmissing : img.BlockMissing inode (pos + 1)) :
    ReadsFrom img inode pos (n + 1) i { ret := -1, stored := [img.file_byte inode pos] } := by
  refine ⟨fun j => ?_, fun j hj => ?_, Or.inr ⟨rfl, Nat.one_pos, hmissing⟩⟩
  · cases j with
    | zero => exact iff_of_true Nat.one_pos ⟨Nat.succ_pos n, Image.reads_zero.mpr hend⟩
    | succ j =>
      refine iff_of_false (fun hj => ?_) fun hj => (Image.reads_succ.mp hj.2).2.1 hmissing
      exact absurd (Nat.lt_of_succ_lt_succ hj) (Nat.not_lt_zero j)
  · have hj0 : j = 0 := Nat.lt_one_iff.mp hj
    rw [hj0]
    rfl

/-- One byte, and then the rest. -/
theorem store (hend : pos % addressSpace < img.length inode)
    (hblock : ¬ img.BlockMissing inode (pos + 1))
    (h : ReadsFrom img inode (pos + 1) n (i + 1) r) :
    ReadsFrom img inode pos (n + 1) i (r.store (img.file_byte inode pos)) := by
  have hlength : (r.store (img.file_byte inode pos)).stored.length = r.stored.length + 1 := rfl
  refine ⟨fun j => ?_, fun j hj => ?_, ?_⟩
  · rw [hlength]
    cases j with
    | zero =>
      exact iff_of_true (Nat.succ_pos _) ⟨Nat.succ_pos n, Image.reads_zero.mpr hend⟩
    | succ j =>
      rw [Nat.succ_lt_succ_iff, h.count, Nat.succ_lt_succ_iff, Image.reads_succ]
      exact and_congr_right fun _ => ⟨fun hr => ⟨hend, hblock, hr⟩, fun hr => hr.2.2⟩
  · cases j with
    | zero => rfl
    | succ j =>
      rw [hlength] at hj
      have hbyte := h.byte j (Nat.lt_of_succ_lt_succ hj)
      rw [show pos + (j + 1) = pos + 1 + j by omega]
      exact hbyte
  · rw [hlength, show i + (r.stored.length + 1) = i + 1 + r.stored.length by omega,
      show pos + (r.stored.length + 1) = pos + 1 + r.stored.length by omega]
    rcases h.ret with hret | ⟨hret, -, hmissing⟩
    · exact Or.inl hret
    · exact Or.inr ⟨hret, Nat.succ_pos _, hmissing⟩

end ReadsFrom

theorem readDataFrom_reads {img : Image} {inode offset n i dbi dli ptr : ℕ}
    (h : AtByte img inode (offset + i) dbi dli ptr) :
    ReadsFrom img inode (offset + i) n i (readDataFrom img inode offset n i dbi dli ptr) := by
  induction n generalizing i dbi dli ptr with
  | zero => exact ReadsFrom.nothing (Or.inl rfl)
  | succ n ih =>
    have hpos : offset + (i + 1) = offset + i + 1 := rfl
    rw [readDataFrom, Nat.add_comm i offset, h.byte]
    by_cases hend : (offset + i) % addressSpace ≥ img.length inode
    · rw [if_pos hend]
      exact ReadsFrom.nothing (Or.inr (Nat.not_lt.mpr hend))
    rw [if_neg hend]
    dsimp only
    by_cases hline : (dli + 1) % FOUR_KB = 0
    · obtain ⟨hzero, hindex, hnext⟩ := h.nextBlock hline
      rw [if_pos hline]
      by_cases hmissing : img.data_block inode (dbi + 1) ≥ img.num_data_blocks
      · rw [if_pos hmissing]
        exact ReadsFrom.last (Nat.lt_of_not_le hend) ⟨hzero, hindex ▸ hmissing⟩
      · rw [if_neg hmissing]
        refine ReadsFrom.store (Nat.lt_of_not_le hend) (fun hm => hmissing ?_)
          (ih (i := i + 1) hnext)
        rw [hindex]
        exact hm.2
    · rw [if_neg hline]
      exact ReadsFrom.store (Nat.lt_of_not_le hend) (h.not_missing hline)
        (ih (i := i + 1) (h.next hline))

/-- A block that is missing behind the last byte makes the read fail. -/
theorem readDataFrom_missing {img : Image} {inode offset n i dbi dli ptr : ℕ}
    (h : AtByte img inode (offset + i) dbi dli ptr)
    (hpositive : 0 < (readDataFrom img inode offset n i dbi dli ptr).stored.length)
    (hmissing : img.BlockMissing inode
      (offset + i + (readDataFrom img inode offset n i dbi dli ptr).stored.length)) :
    (readDataFrom img inode offset n i dbi dli ptr).ret = -1 := by
  induction n generalizing i dbi dli ptr with
  | zero => exact absurd hpositive (Nat.lt_irrefl 0)
  | succ n ih =>
    -- the byte just read was the last one, or a later one is
    have hstore : ∀ {dbi' ptr'}, AtByte img inode (offset + (i + 1)) dbi' (dli + 1) ptr' →
        ¬ img.BlockMissing inode (offset + i + 1) →
        img.BlockMissing inode (offset + i +
          ((readDataFrom img inode offset n (i + 1) dbi' (dli + 1) ptr').stored.length + 1)) →
        (readDataFrom img inode offset n (i + 1) dbi' (dli + 1) ptr').ret = -1 := by
      intro dbi' ptr' hnext hblock hlast
      refine ih hnext ?_ ?_
      · rw [Nat.pos_iff_ne_zero]
        intro hzero
        rw [hzero] at hlast
        exact hblock hlast
      · rw [show offset + (i + 1) +
            (readDataFrom img inode offset n (i + 1) dbi' (dli + 1) ptr').stored.length =
          offset + i +
            ((readDataFrom img inode offset n (i + 1) dbi' (dli + 1) ptr').stored.length + 1) by
          omega]
        exact hlast
    rw [readDataFrom] at hpositive hmissing ⊢
    by_cases hend : (i + offset) % addressSpace ≥ img.length inode
    · rw [if_pos hend] at hpositive
      exact absurd hpositive (Nat.lt_irrefl 0)
    rw [if_neg hend] at hmissing ⊢
    dsimp only at hmissing ⊢
    by_cases hline : (dli + 1) % FOUR_KB = 0
    · obtain ⟨hzero, hindex, hnext⟩ := h.nextBlock hline
      rw [if_pos hline] at hmissing ⊢
      by_cases hnone : img.data_block inode (dbi + 1) ≥ img.num_data_blocks
      · rw [if_pos hnone]
      · rw [if_neg hnone] at hmissing ⊢
        refine hstore hnext (fun hm => hnone ?_) hmissing
        rw [hindex]
        exact hm.2
    · rw [if_neg hline] at hmissing ⊢
      exact hstore (h.next hline) (h.not_missing hline) hmissing

/-- `read_data` on an inode that exists. -/
theorem read_data_reads {img : Image} {inode : ℕ} (offset length : ℕ)
    (h : inode < img.num_inodes) :
    ReadsFrom img inode offset length 0 (read_data img inode offset length) := by
  have hsize : FOUR_KB = 4096 := rfl
  unfold read_data
  rw [if_neg (Nat.not_le.mpr h)]
  refine readDataFrom_reads (i := 0) ⟨rfl, ?_, rfl⟩
  rw [hsize]
  omega

/-- What `read_data` does, for any inode. -/
theorem read_data_cases (img : Image) (inode offset length : ℕ) :
    (img.num_inodes ≤ inode ∧ read_data img inode offset length = { ret := -1, stored := [] }) ∨
      inode < img.num_inodes ∧
        ReadsFrom img inode offset length 0 (read_data img inode offset length) := by
  by_cases h : inode < img.num_inodes
  · exact Or.inr ⟨h, read_data_reads offset length h⟩
  · refine Or.inl ⟨Nat.le_of_not_lt h, ?_⟩
    unfold read_data
    rw [if_pos (Nat.le_of_not_lt h)]

/-! ## Images in order -/

/-- An inode whose file has its blocks. The entries behind them may hold anything. -/
structure Covered (img : Image) (inode : ℕ) : Prop where
  length_le : img.length inode ≤ 1023 * FOUR_KB
  blocks : ∀ k, k * FOUR_KB < img.length inode → img.data_block inode k < img.num_data_blocks

/-- A read within the file gets to its end. -/
theorem Covered.reads_iff {img : Image} {inode pos : ℕ} (h : Covered img inode)
    (hpos : pos ≤ img.length inode) (i : ℕ) :
    img.Reads inode pos i ↔ pos + i < img.length inode := by
  have hsize : FOUR_KB = 4096 := rfl
  have hlen := h.length_le
  rw [hsize] at hlen
  constructor
  · rintro ⟨hend, -⟩
    by_contra hout
    have hlast := hend (img.length inode - pos) (by omega)
    rw [addressSpace, Nat.mod_eq_of_lt (by omega)] at hlast
    omega
  · intro hin
    refine ⟨fun j hj => ?_, fun j hj hmissing => ?_⟩
    · rw [addressSpace, Nat.mod_eq_of_lt (by omega)]
      omega
    · have hblock := h.blocks ((pos + j + 1) / FOUR_KB) (by rw [hsize]; omega)
      exact absurd hmissing.2 (Nat.not_le.mpr hblock)

/-- A read that gets to the end of the file stores a piece of it. -/
theorem ReadsFrom.stored_eq_piece {img : Image} {inode pos n i : ℕ} {r : ReadResult}
    (h : ReadsFrom img inode pos n i r)
    (hreads : ∀ j < n, img.Reads inode pos j ↔ pos + j < img.length inode) :
    r.stored = piece (img.file inode) pos n := by
  have hlen : r.stored.length = min n (img.length inode - pos) := by
    apply eq_of_forall_lt_iff
    intro j
    rw [h.count, lt_min_iff]
    refine and_congr_right fun hj => ?_
    rw [hreads j hj]
    omega
  apply List.ext_getElem?
  intro j
  by_cases hj : j < r.stored.length
  · rw [h.byte j hj]
    rw [hlen] at hj
    unfold piece Image.file
    rw [List.getElem?_take, if_pos (by omega), List.getElem?_drop, List.getElem?_map,
      List.getElem?_range (by omega)]
    rfl
  · rw [List.getElem?_eq_none (Nat.le_of_not_lt hj), List.getElem?_eq_none]
    rw [length_piece, Image.length_file, ← hlen]
    exact Nat.le_of_not_lt hj

/-- So it stores a piece of the file, whatever it returns. -/
theorem Covered.stored {img : Image} {inode pos : ℕ} (h : Covered img inode)
    (hinode : inode < img.num_inodes) (hpos : pos ≤ img.length inode) (n : ℕ) :
    (read_data img inode pos n).stored = piece (img.file inode) pos n :=
  (read_data_reads pos n hinode).stored_eq_piece fun j _ => h.reads_iff hpos j

/-- Within the first block no other block is needed. -/
theorem read_data_first_block {img : Image} {inode pos n : ℕ} (hinode : inode < img.num_inodes)
    (hn : pos + n < FOUR_KB) :
    (read_data img inode pos n).stored = piece (img.file inode) pos n := by
  have hsize : FOUR_KB = 4096 := rfl
  refine (read_data_reads pos n hinode).stored_eq_piece fun j hj =>
    ⟨fun hreads => ?_, fun hend => ?_⟩
  · have hlast := hreads.1 j le_rfl
    rwa [addressSpace, Nat.mod_eq_of_lt (by omega)] at hlast
  · refine ⟨fun i hi => ?_, fun i hi hmissing => ?_⟩
    · rw [addressSpace, Nat.mod_eq_of_lt (by omega)]
      omega
    · have hblock := hmissing.1
      rw [hsize] at hblock
      omega

/-- An inode whose file is short of the largest size and whose data blocks all exist. -/
structure GoodInode (img : Image) (inode : ℕ) : Prop where
  length_lt : img.length inode < 1023 * FOUR_KB
  blocks : ∀ j < 1023, img.data_block inode j < img.num_data_blocks

theorem GoodInode.covered {img : Image} {inode : ℕ} (h : GoodInode img inode) :
    Covered img inode := by
  have hsize : FOUR_KB = 4096 := rfl
  have hlen := h.length_lt
  refine ⟨by omega, fun k hk => h.blocks k ?_⟩
  rw [hsize] at hlen hk
  omega

/-- There a read is a piece of the file, and returns its length. -/
theorem read_data_good {img : Image} {inode pos : ℕ} (h : GoodInode img inode)
    (hinode : inode < img.num_inodes) (hpos : pos ≤ img.length inode) (n : ℕ) :
    (read_data img inode pos n).stored = piece (img.file inode) pos n ∧
      (read_data img inode pos n).ret = min n (img.length inode - pos) := by
  have hsize : FOUR_KB = 4096 := rfl
  have hmax := h.length_lt
  rw [hsize] at hmax
  have hstored := h.covered.stored hinode hpos n
  have hlen : (read_data img inode pos n).stored.length = min n (img.length inode - pos) := by
    rw [hstored, length_piece, Image.length_file]
  refine ⟨hstored, ?_⟩
  rcases (read_data_reads pos n hinode).ret with hret | ⟨-, hpositive, hmissing⟩
  · rw [hret, hlen, Nat.zero_add, toInt32_eq (by omega)]
  · -- the last byte read lies within the file, so the next block exists
    have hblock := h.blocks
      ((pos + (read_data img inode pos n).stored.length) / FOUR_KB) (by rw [hsize]; omega)
    exact absurd hmissing.2 (Nat.not_le.mpr hblock)

end Kernel391
