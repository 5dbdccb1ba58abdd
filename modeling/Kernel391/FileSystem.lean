import Kernel391.Strings

/-!
# The file system image

The boot loader leaves the file system in memory and the kernel reads it through the
pointer `bootBlock`. The model keeps it as the bytes at each offset from that pointer, so
that a malformed image means what it means to the code: an inode or block number out of
range reads whatever bytes lie at the address computed from it. Offsets wrap at 32 bits
like the address arithmetic does.

Blocks are 4 KB: the boot block, then `num_inodes` inode blocks, then the data blocks.
-/

namespace Kernel391

def MAX_NAME_LENGTH : ℕ := 32
def FOUR_KB : ℕ := 4096

/-- Bytes of the image, by offset from `bootBlock`. -/
abbrev Image := Bytes

namespace Image

def byte (img : Image) (a : ℕ) : UInt8 := img (a % addressSpace)

/-- Little-endian 32-bit word at an offset. -/
def word (img : Image) (a : ℕ) : ℕ :=
  (img.byte a).toNat + 2 ^ 8 * (img.byte (a + 1)).toNat + 2 ^ 16 * (img.byte (a + 2)).toNat
    + 2 ^ 24 * (img.byte (a + 3)).toNat

/-! ## Boot block -/

def num_dir_entries (img : Image) : ℕ := img.word 0
def num_inodes (img : Image) : ℕ := img.word 4
def num_data_blocks (img : Image) : ℕ := img.word 8

/-- Offset of directory entry `i`: entries are 64 bytes and follow 64 bytes of counts. -/
def dir_entry (i : ℕ) : ℕ := 64 + 64 * i

/-- Memory from `dir_entries[i].file_name` on. -/
def file_name (img : Image) (i : ℕ) : Bytes := fun j => img.byte (dir_entry i + j)

def file_type (img : Image) (i : ℕ) : ℕ := img.word (dir_entry i + 32)
def inode (img : Image) (i : ℕ) : ℕ := img.word (dir_entry i + 36)

/-! ## Inode and data blocks -/

def inode_block (k : ℕ) : ℕ := FOUR_KB * (k + 1)
def length (img : Image) (k : ℕ) : ℕ := img.word (inode_block k)
def data_block (img : Image) (k j : ℕ) : ℕ := img.word (inode_block k + 4 + 4 * j)

/-- Offset of data block `b`. -/
def data_start (img : Image) (b : ℕ) : ℕ := FOUR_KB * (img.num_inodes + 1 + b)

end Image

/-- The fields of `dentry_t` a lookup fills in. -/
structure Dentry where
  file_name : Bytes
  file_type : ℕ
  inode : ℕ

/-- Globals of the file system driver. -/
structure FsGlobals where
  dir_number : ℕ
  inode_number : ℕ
  f_size : ℕ

/-- The test of one directory entry in `read_dentry_by_name`. A name of the full 32
characters has no NUL in its field; its `strlen` runs on into the file type, and is
expected to be 33. -/
def dentryMatches (img : Image) (fname : Bytes) (i : ℕ) : Bool :=
  let length := strlen fname
  let true_length := if length = MAX_NAME_LENGTH then length + 1 else length
  decide (true_length = strlen (img.file_name i)) &&
    decide (strncmp fname (img.file_name i) length = 0)

/-- Look a name up; `none` is the return value -1, with the globals untouched. -/
def read_dentry_by_name (img : Image) (fname : Bytes) (fs : FsGlobals) :
    Option (Dentry × FsGlobals) :=
  if strlen fname > MAX_NAME_LENGTH ∨ strlen fname = 0 then none
  else
    ((List.range img.num_dir_entries).find? fun i => dentryMatches img fname i).map fun i =>
      ({ file_name := img.file_name i, file_type := img.file_type i, inode := img.inode i },
        { fs with inode_number := img.inode i, f_size := img.length (img.inode i) })

/-- What `read_data` does: the value it returns and the bytes it stored at `buf`, in
order. -/
structure ReadResult where
  ret : ℤ
  stored : List UInt8

def ReadResult.store (b : UInt8) (r : ReadResult) : ReadResult :=
  { r with stored := b :: r.stored }

/-- Conversion of an unsigned word to `int32_t`. -/
def toInt32 (n : ℕ) : ℤ := Int.bmod n addressSpace

theorem toInt32_eq {n : ℕ} (h : n < 2 ^ 31) : toInt32 n = n := by
  rw [toInt32, addressSpace, Int.bmod_eq_of_le (by omega) (by omega)]

/-- The loop of `read_data` at byte `i`, with `n` of the `i + n` bytes left to read. -/
def readDataFrom (img : Image) (inode offset : ℕ) :
    (n i data_block_index data_line_index data_ptr : ℕ) → ReadResult
  | 0, i, _, _, _ => { ret := toInt32 i, stored := [] }
  | n + 1, i, data_block_index, data_line_index, data_ptr =>
    -- end of file
    if (i + offset) % addressSpace ≥ img.length inode then { ret := toInt32 i, stored := [] }
    else
      let b := img.byte data_ptr
      if (data_line_index + 1) % FOUR_KB = 0 then
        -- this data block is used up: move to the next one, if the inode has a valid one
        let next := img.data_block inode (data_block_index + 1)
        if next ≥ img.num_data_blocks then { ret := -1, stored := [b] }
        else
          (readDataFrom img inode offset n (i + 1) (data_block_index + 1) (data_line_index + 1)
            (img.data_start next)).store b
      else
        (readDataFrom img inode offset n (i + 1) data_block_index (data_line_index + 1)
          (data_ptr + 1)).store b

def read_data (img : Image) (inode offset length : ℕ) : ReadResult :=
  if inode ≥ img.num_inodes then { ret := -1, stored := [] }
  else
    let data_block_index := offset / FOUR_KB
    let data_line_index := offset % FOUR_KB
    readDataFrom img inode offset length 0 data_block_index data_line_index
      (img.data_start (img.data_block inode data_block_index) + data_line_index)

/-! ## Lookups see only the name -/

theorem strncmpFrom_congr {a b s : Bytes} {n : ℕ} (hab : ∀ j < n, a j = b j) :
    ∀ {k i : ℕ}, i + k ≤ n → strncmpFrom a s k i = strncmpFrom b s k i := by
  intro k
  induction k with
  | zero => intro i _; rfl
  | succ k ih =>
    intro i hle
    rw [strncmpFrom, strncmpFrom, hab i (by omega), ih (by omega)]

theorem strncmp_congr {a b s : Bytes} {n : ℕ} (hab : ∀ j < n, a j = b j) :
    strncmp a s n = strncmp b s n :=
  strncmpFrom_congr hab (by omega)

/-- Two buffers that hold the same string are looked up alike. -/
theorem read_dentry_by_name_congr {img : Image} {a b : Bytes} {fs : FsGlobals}
    (hlen : strlen a = strlen b) (hab : ∀ j < strlen a, a j = b j) :
    read_dentry_by_name img a fs = read_dentry_by_name img b fs := by
  have hmatch : ∀ i, dentryMatches img a i = dentryMatches img b i := by
    intro i
    simp only [dentryMatches, ← hlen, strncmp_congr hab]
  simp only [read_dentry_by_name, ← hlen, hmatch]

theorem strlen_congr_of_holds {a b : Bytes} {chars : List Char} (ha : HoldsString a chars)
    (hb : HoldsString b chars) (j : ℕ) (hj : j < chars.length) : a j = b j := by
  rw [ha.1 j chars[j] (List.getElem?_eq_getElem hj), hb.1 j chars[j] (List.getElem?_eq_getElem hj)]

end Kernel391
