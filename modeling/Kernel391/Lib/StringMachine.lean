import Mathlib.Logic.Relation
import Mathlib.Tactic.Common
import Mathlib.Tactic.IntervalCases

/-!
# A machine with string instructions

The part of a 32-bit x86 that hand-written copy loops use: five registers, two segment
registers, the zero, carry and direction flags, and a flat memory of bytes behind the
segments. A program is a list of instructions and labels, in the source's order of
operands (the destination last).

Three things live here:

* `step`, one instruction; a repeated string instruction takes one step for each
  repetition, and a last one that leaves it;
* `written`, memory after a run of bytes has been overwritten, with the lemmas that put two
  neighbouring runs together (`written_after`, `written_before`);
* `Ends`, total correctness: the program gets to its end, in a state with a property. The
  rules are `Ends.until` for a loop that counts, and `AlignedLoop.ends` for a loop of bytes,
  then of double words, then of bytes.
-/

namespace StringMachine

abbrev Word := BitVec 32
abbrev Byte := BitVec 8

/-- The byte at each linear address. -/
abbrev Memory := Word → Byte

/-! ## Counters -/

theorem toNat_pos {v : Word} (h : v ≠ 0) : 0 < v.toNat :=
  Nat.pos_of_ne_zero fun h0 => h (BitVec.eq_of_toNat_eq h0)

theorem toNat_sub_one {v : Word} (h : v ≠ 0) : (v - 1).toNat = v.toNat - 1 := by
  have hpos := toNat_pos h
  have hlt := v.isLt
  have hone : (1 : Word).toNat = 1 := rfl
  rw [BitVec.toNat_sub, hone]
  omega

/-- A count of bytes as double words and the bytes left over. -/
theorem toNat_shift_and (v : Word) : 4 * (v >>> 2).toNat + (v &&& 3).toNat = v.toNat := by
  have hand : (v &&& 3).toNat = v.toNat % 4 := by
    rw [BitVec.toNat_and]
    exact Nat.and_two_pow_sub_one_eq_mod v.toNat 2
  rw [hand, BitVec.toNat_ushiftRight, Nat.shiftRight_eq_div_pow]
  omega

/-! ## Bytes written in a row -/

/-- Memory after `k` bytes from `d` on have been overwritten by `f 0`, `f 1`, and so on. -/
def written (mem : Memory) (d : Word) (f : ℕ → Byte) (k : ℕ) : Memory := fun a =>
  if (a - d).toNat < k then f (a - d).toNat else mem a

section Written

variable {mem : Memory} {d : Word} {f g : ℕ → Byte} {j k : ℕ}

@[simp] theorem written_zero (mem : Memory) (d : Word) (f : ℕ → Byte) :
    written mem d f 0 = mem := by
  funext a
  simp [written]

theorem written_congr (h : ∀ i < k, f i = g i) : written mem d f k = written mem d g k := by
  funext a
  unfold written
  split_ifs with hlt
  · exact h _ hlt
  · rfl

/-- An offset from a later base, at or after it. -/
theorem toNat_sub_add_of_le {a d : Word} (hk : k ≤ (a - d).toNat) :
    (a - (d + BitVec.ofNat 32 k)).toNat = (a - d).toNat - k := by
  have ha := a.isLt
  have hd := d.isLt
  rw [BitVec.toNat_sub] at hk ⊢
  rw [BitVec.toNat_sub, BitVec.toNat_add, BitVec.toNat_ofNat]
  omega

/-- And before it: it wraps around. -/
theorem toNat_sub_add_of_lt {a d : Word} (hk : k ≤ 2 ^ 32) (hlt : (a - d).toNat < k) :
    (a - (d + BitVec.ofNat 32 k)).toNat = (a - d).toNat + 2 ^ 32 - k := by
  have ha := a.isLt
  have hd := d.isLt
  rw [BitVec.toNat_sub] at hlt ⊢
  rw [BitVec.toNat_sub, BitVec.toNat_add, BitVec.toNat_ofNat]
  omega

theorem toNat_add_sub (d : Word) (hk : k < 2 ^ 32) :
    (d + BitVec.ofNat 32 k - d).toNat = k := by
  have hd := d.isLt
  rw [BitVec.toNat_sub, BitVec.toNat_add, BitVec.toNat_ofNat]
  omega

/-- A byte that has been written. -/
theorem written_add (hk : k ≤ 2 ^ 32) (hj : j < k) :
    written mem d f k (d + BitVec.ofNat 32 j) = f j := by
  have hoff := toNat_add_sub d (show j < 2 ^ 32 by omega)
  rw [written, if_pos (by omega), hoff]

/-- A byte outside the run. -/
theorem written_outside {a : Word} (h : ∀ j < k, a ≠ d + BitVec.ofNat 32 j) :
    written mem d f k a = mem a := by
  rw [written, if_neg]
  intro hlt
  refine h _ hlt ?_
  rw [BitVec.ofNat_toNat, BitVec.setWidth_eq, BitVec.add_comm, BitVec.sub_add_cancel]

/-- Bytes written right after the run make it longer. -/
theorem written_after (hk : k + j ≤ 2 ^ 32) (hg : ∀ i < j, g i = f (k + i)) :
    written (written mem d f k) (d + BitVec.ofNat 32 k) g j = written mem d f (k + j) := by
  funext a
  have ha := (a - d).isLt
  unfold written
  by_cases hin : (a - d).toNat < k
  · rw [toNat_sub_add_of_lt (by omega) hin, if_neg (by omega), if_pos hin, if_pos (by omega)]
  · rw [toNat_sub_add_of_le (by omega), if_neg hin]
    by_cases hlt : (a - d).toNat < k + j
    · rw [if_pos (by omega), if_pos hlt, hg _ (by omega)]
      congr 1
      omega
    · rw [if_neg (by omega), if_neg hlt]

/-- And so do bytes written right before it. -/
theorem written_before (hf : ∀ i < k, f i = g (j + i)) :
    written (written mem (d + BitVec.ofNat 32 j) f k) d g j = written mem d g (j + k) := by
  funext a
  have ha := (a - d).isLt
  unfold written
  by_cases hin : (a - d).toNat < j
  · rw [if_pos hin, if_pos (by omega)]
  · rw [if_neg hin, toNat_sub_add_of_le (by omega)]
    by_cases hlt : (a - d).toNat < j + k
    · rw [if_pos (by omega), if_pos hlt, hf _ (by omega)]
      congr 1
      omega
    · rw [if_neg (by omega), if_neg hlt]

end Written

/-- The double word at `a`, lowest byte first. -/
def load32 (mem : Memory) (a : Word) : Word := mem (a + 3) ++ mem (a + 2) ++ mem (a + 1) ++ mem a

/-- Byte `i` of a double word. -/
def byteOf (v : Word) (i : ℕ) : Byte := v.extractLsb' (8 * i) 8

theorem byteOf_load32 (mem : Memory) (a : Word) {i : ℕ} (hi : i < 4) :
    byteOf (load32 mem a) i = mem (a + BitVec.ofNat 32 i) := by
  unfold byteOf load32
  apply BitVec.eq_of_getLsbD_eq
  intro j hj
  rw [BitVec.getLsbD_extractLsb', decide_eq_true hj, Bool.true_and]
  simp only [BitVec.getLsbD_append]
  have h0 : a + BitVec.ofNat 32 0 = a := BitVec.add_zero a
  interval_cases i <;> grind

def store8 (mem : Memory) (a : Word) (v : Byte) : Memory := written mem a (fun _ => v) 1

def store32 (mem : Memory) (a : Word) (v : Word) : Memory := written mem a (byteOf v) 4

/-! ## Instructions -/

inductive Reg
  | eax | ecx | edx | esi | edi
deriving DecidableEq, Repr

/-- First operand of an instruction: a constant or a register. -/
inductive Source
  | imm (v : Word)
  | reg (r : Reg)
deriving DecidableEq, Repr

/-- Instructions, and labels `ℓ` in front of them. Byte moves go through `al`, word moves
through `dx`, as these are the only ones the loops have. -/
inductive Instr (ℓ : Type)
  | label (l : ℓ)
  | jmp (l : ℓ)
  | jz (l : ℓ)
  | jae (l : ℓ)
  | testl (src : Source) (dst : Reg)
  | cmpl (src : Source) (dst : Reg)
  | addl (src : Source) (dst : Reg)
  | subl (src : Source) (dst : Reg)
  | andl (src : Source) (dst : Reg)
  | shrl (count : ℕ) (dst : Reg)
  | movl (src : Source) (dst : Reg)
  | leal (disp : Word) (base index : Reg) (dst : Reg)
  | movb_from (address : Reg)
  | movb_to (address : Reg)
  | movw_ds_dx
  | movw_dx_es
  | cld
  | std
  | rep_movsb
  | rep_movsl
  | rep_stosl
deriving DecidableEq, Repr

/-- The machine; `pc` counts the lines of the program. -/
structure Machine where
  pc : ℕ
  eax : Word
  ecx : Word
  edx : Word
  esi : Word
  edi : Word
  ds : BitVec 16
  es : BitVec 16
  zf : Bool
  cf : Bool
  df : Bool
  mem : Memory

namespace Machine

def get (m : Machine) : Reg → Word
  | .eax => m.eax
  | .ecx => m.ecx
  | .edx => m.edx
  | .esi => m.esi
  | .edi => m.edi

def set (m : Machine) (v : Word) : Reg → Machine
  | .eax => { m with eax := v }
  | .ecx => { m with ecx := v }
  | .edx => { m with edx := v }
  | .esi => { m with esi := v }
  | .edi => { m with edi := v }

def value (m : Machine) : Source → Word
  | .imm v => v
  | .reg r => m.get r

def next (m : Machine) : Machine := { m with pc := m.pc + 1 }

/-- Flags of a result, with the carry given. -/
def flags (m : Machine) (result : Word) (carry : Bool) : Machine :=
  { m with zf := result == 0, cf := carry }

/-- The low byte of `eax`. -/
def al (m : Machine) : Byte := m.eax.setWidth 8

/-- `eax` with another low byte. -/
def setAl (m : Machine) (v : Byte) : Machine := { m with eax := m.eax.extractLsb' 8 24 ++ v }

/-- What a string instruction adds to its pointers for an item of `size` bytes. -/
def stride (m : Machine) (size : Word) : Word := if m.df then -size else size

end Machine

section Execution

variable {ℓ : Type} [DecidableEq ℓ]
-- where each segment starts in the linear address space
variable (segment : BitVec 16 → Word) (prog : List (Instr ℓ))

/-- The line of a label. -/
def target (l : ℓ) : ℕ := prog.idxOf (.label l)

/-- A string instruction under `rep`: nothing more when `ecx` is zero, else once, and the
instruction is met again. -/
def rep (body : Machine → Machine) (m : Machine) : Machine :=
  if m.ecx = 0 then m.next else { body m with ecx := m.ecx - 1 }

def movs (size : Word) (move : Memory → Word → Word → Memory) (m : Machine) : Machine :=
  { m with
    mem := move m.mem (segment m.ds + m.esi) (segment m.es + m.edi)
    esi := m.esi + m.stride size
    edi := m.edi + m.stride size }

def stosl (m : Machine) : Machine :=
  { m with
    mem := store32 m.mem (segment m.es + m.edi) m.eax
    edi := m.edi + m.stride 4 }

def exec (m : Machine) : Instr ℓ → Machine
  | .label _ => m.next
  | .jmp l => { m with pc := target prog l }
  | .jz l => { m with pc := if m.zf then target prog l else m.pc + 1 }
  | .jae l => { m with pc := if m.cf then m.pc + 1 else target prog l }
  | .testl src dst => (m.flags (m.value src &&& m.get dst) false).next
  | .cmpl src dst => (m.flags (m.get dst - m.value src) (m.get dst < m.value src)).next
  | .addl src dst =>
    let sum := m.get dst + m.value src
    ((m.set sum dst).flags sum (sum < m.get dst)).next
  | .subl src dst =>
    let difference := m.get dst - m.value src
    ((m.set difference dst).flags difference (m.get dst < m.value src)).next
  | .andl src dst =>
    let both := m.get dst &&& m.value src
    ((m.set both dst).flags both false).next
  | .shrl count dst =>
    let shifted := m.get dst >>> count
    ((m.set shifted dst).flags shifted ((m.get dst).getLsbD (count - 1))).next
  | .movl src dst => (m.set (m.value src) dst).next
  | .leal disp base index dst => (m.set (disp + m.get base + m.get index) dst).next
  | .movb_from address => (m.setAl (m.mem (segment m.ds + m.get address))).next
  | .movb_to address =>
    { m with mem := store8 m.mem (segment m.ds + m.get address) m.al }.next
  | .movw_ds_dx => { m with edx := m.edx.extractLsb' 16 16 ++ m.ds }.next
  | .movw_dx_es => { m with es := m.edx.setWidth 16 }.next
  | .cld => { m with df := false }.next
  | .std => { m with df := true }.next
  | .rep_movsb => rep (movs segment 1 fun mem s d => store8 mem d (mem s)) m
  | .rep_movsl => rep (movs segment 4 fun mem s d => store32 mem d (load32 mem s)) m
  | .rep_stosl => rep (stosl segment) m

/-- The low word of `edx` after it has been loaded. -/
theorem setWidth_append_low (x y : BitVec 16) : (x ++ y).setWidth 16 = y := by
  rw [BitVec.setWidth_append, dif_pos le_rfl, BitVec.setWidth_eq]

/-- And the low byte of `eax`. -/
theorem al_setAl (m : Machine) (v : Byte) : (m.setAl v).al = v := by
  rw [Machine.al, Machine.setAl]
  exact (BitVec.setWidth_append (k := 8)).trans (by rw [dif_pos le_rfl, BitVec.setWidth_eq])

/-- One step; there is none past the last line. -/
def step (m : Machine) : Option Machine := prog[m.pc]?.map (exec segment prog m)

def run : ℕ → Machine → Option Machine
  | 0, m => some m
  | n + 1, m => (step segment prog m).bind (run n)

/-! ## Total correctness -/

def Reaches (m m' : Machine) : Prop := ∃ n, run segment prog n m = some m'

/-- The program gets to its end, with `Q`. -/
def Ends (m : Machine) (Q : Machine → Prop) : Prop :=
  ∃ m', Reaches segment prog m m' ∧ m'.pc = prog.length ∧ Q m'

end Execution

section Rules

variable {ℓ : Type} [DecidableEq ℓ] {segment : BitVec 16 → Word} {prog : List (Instr ℓ)}
variable {m m' m'' : Machine} {Q R : Machine → Prop}

theorem run_add (a b : ℕ) (m : Machine) :
    run segment prog (a + b) m = (run segment prog a m).bind (run segment prog b) := by
  induction a generalizing m with
  | zero => simp [run]
  | succ a ih =>
    rw [show a + 1 + b = (a + b) + 1 by omega, run, run]
    cases h : step segment prog m with
    | none => rfl
    | some m₁ => exact ih m₁

theorem Reaches.trans (h : Reaches segment prog m m') (h' : Reaches segment prog m' m'') :
    Reaches segment prog m m'' := by
  obtain ⟨a, ha⟩ := h
  obtain ⟨b, hb⟩ := h'
  exact ⟨a + b, by rw [run_add, ha]; exact hb⟩

theorem Ends.of_reaches (h : Reaches segment prog m m') (h' : Ends segment prog m' Q) :
    Ends segment prog m Q := by
  obtain ⟨m₁, hm₁, hpc, hQ⟩ := h'
  exact ⟨m₁, h.trans hm₁, hpc, hQ⟩

theorem Ends.mono (h : Ends segment prog m Q) (himp : ∀ m, Q m → R m) :
    Ends segment prog m R := by
  obtain ⟨m₁, hm₁, hpc, hQ⟩ := h
  exact ⟨m₁, hm₁, hpc, himp _ hQ⟩

/-- Past the last line nothing runs. -/
theorem run_end (hpc : m.pc = prog.length) {n : ℕ} (h : run segment prog n m = some m') :
    m' = m := by
  cases n with
  | zero =>
    rw [run, Option.some.injEq] at h
    exact h.symm
  | succ n =>
    have hstep : step segment prog m = none := by
      rw [step, List.getElem?_eq_none (by omega)]
      rfl
    rw [run, hstep] at h
    cases h

/-- There is one end: what is true there is true whenever the program ends. -/
theorem Ends.and (h : Ends segment prog m Q) (h' : Ends segment prog m R) :
    Ends segment prog m fun m' => Q m' ∧ R m' := by
  obtain ⟨m₁, ⟨a, ha⟩, hpc, hQ⟩ := h
  obtain ⟨m₂, ⟨b, hb⟩, hpc', hR⟩ := h'
  have heq : m₁ = m₂ := by
    rcases Nat.le_total a b with hab | hab
    · obtain ⟨c, rfl⟩ := Nat.exists_eq_add_of_le hab
      rw [run_add, ha] at hb
      exact (run_end hpc hb).symm
    · obtain ⟨c, rfl⟩ := Nat.exists_eq_add_of_le hab
      rw [run_add, hb] at ha
      exact run_end hpc' ha
  exact ⟨m₁, ⟨a, ha⟩, hpc, hQ, heq ▸ hR⟩

/-- A loop whose count goes up to at most `n`. -/
theorem Ends.until {I : ℕ → Machine → Prop} {n : ℕ}
    (hround : ∀ k m, I k m → Ends segment prog m Q ∨
      ∃ k' m', k < k' ∧ k' ≤ n ∧ Reaches segment prog m m' ∧ I k' m')
    {k : ℕ} (h : I k m) : Ends segment prog m Q := by
  induction hd : n - k using Nat.strong_induction_on generalizing k m with
  | _ d ih =>
    rcases hround k m h with hQ | ⟨k', m', hlt, hle, hm', hI⟩
    · exact hQ
    · exact (ih (n - k') (by omega) hI rfl).of_reaches hm'

/-! ## Overwriting a range

`dest` is a pointer as compiled code has it: an offset into the segment of `ds`. -/

/-- The address of byte `i` of the object at a pointer. -/
def Machine.address (segment : BitVec 16 → Word) (m : Machine) (p : Word) (i : ℕ) : Word :=
  segment m.ds + (p + BitVec.ofNat 32 i)

/-- In `m'` the `n` bytes at `dest` are `f`; the rest of memory is that of `m`. -/
def Overwrites (segment : BitVec 16 → Word) (m : Machine) (dest : Word) (f : ℕ → Byte) (n : ℕ)
    (m' : Machine) : Prop :=
  (∀ i < n, m'.mem (m.address segment dest i) = f i) ∧
    ∀ a, (∀ i < n, a ≠ m.address segment dest i) → m'.mem a = m.mem a

/-- On the way there: `k` bytes are done and `edi` is right behind them. -/
structure Progress (segment : BitVec 16 → Word) (start : Machine) (dest : Word) (f : ℕ → Byte)
    (k : ℕ) (m : Machine) : Prop where
  mem : m.mem = written start.mem (segment start.ds + dest) f k
  edi : m.edi = dest + BitVec.ofNat 32 k
  ds : m.ds = start.ds

section Progress

variable {start : Machine} {dest : Word} {f : ℕ → Byte} {j k n : ℕ}

theorem Machine.address_eq (m : Machine) (p : Word) (i : ℕ) :
    m.address segment p i = segment m.ds + p + BitVec.ofNat 32 i :=
  (BitVec.add_assoc _ _ _).symm

theorem overwrites_written (hn : n ≤ 2 ^ 32)
    (h : m'.mem = written m.mem (segment m.ds + dest) f n) :
    Overwrites segment m dest f n m' := by
  refine ⟨fun i hi => ?_, fun a ha => ?_⟩
  · rw [h, Machine.address_eq, written_add hn hi]
  · rw [h, written_outside fun i hi => ?_]
    rw [← Machine.address_eq]
    exact ha i hi

theorem Progress.zero (hmem : m.mem = start.mem) (hedi : m.edi = dest) (hds : m.ds = start.ds) :
    Progress segment start dest f 0 m :=
  ⟨by rw [hmem, written_zero], by rw [hedi]; exact (BitVec.add_zero dest).symm, hds⟩

/-- The next `j` bytes, stored at `edi`. -/
theorem Progress.add (h : Progress segment start dest f k m) {g : ℕ → Byte}
    (hk : k + j ≤ 2 ^ 32) (hg : ∀ i < j, g i = f (k + i))
    (hmem : m'.mem = written m.mem (segment m.ds + m.edi) g j)
    (hedi : m'.edi = m.edi + BitVec.ofNat 32 j) (hds : m'.ds = m.ds) :
    Progress segment start dest f (k + j) m' := by
  refine ⟨?_, ?_, hds.trans h.ds⟩
  · rw [hmem, h.mem, h.edi, h.ds, ← BitVec.add_assoc]
    exact written_after hk hg
  · rw [hedi, h.edi, BitVec.add_assoc, ← BitVec.ofNat_add]

/-- A byte that is not among them is still what it was. -/
theorem Progress.mem_outside (h : Progress segment start dest f k m) {a : Word}
    (ha : ∀ i < k, a ≠ start.address segment dest i) : m.mem a = start.mem a := by
  rw [h.mem, written_outside fun i hi => ?_]
  rw [← Machine.address_eq]
  exact ha i hi

end Progress

/-! ## Bytes, then double words, then bytes

The usual shape of a fast copy loop: single bytes while `edi` is not aligned, with their
number in `ecx`; then `ecx / 4` repetitions of a string instruction; then the `ecx % 4`
bytes that are left, counted in `edx`. -/

/-- What the blocks of such a loop do to `T`, which says that `k` bytes are done: the first
loop starts at line 0, the string instruction is at line `words`, the last loop at `rest`. -/
structure AlignedLoop (segment : BitVec 16 → Word) (prog : List (Instr ℓ)) (words rest n : ℕ)
    (T : ℕ → Machine → Prop) : Prop where
  byte : ∀ k m, T k m → k < n → m.pc = 0 → m.ecx ≠ 0 → 3 &&& m.edi ≠ 0 →
    ∃ m', Reaches segment prog m m' ∧ m'.pc = 0 ∧ m'.ecx = m.ecx - 1 ∧ T (k + 1) m'
  aligned : ∀ k m, T k m → m.pc = 0 → m.ecx ≠ 0 → 3 &&& m.edi = 0 →
    ∃ m', Reaches segment prog m m' ∧ m'.pc = words ∧ m'.ecx = m.ecx >>> 2 ∧
      m'.edx = m.ecx &&& 3 ∧ m'.df = false ∧ m'.es = m'.ds ∧ T k m'
  empty : ∀ k m, T k m → m.pc = 0 → m.ecx = 0 → Ends segment prog m (T k)
  word : ∀ k m, T k m → k + 4 ≤ n → m.pc = words → m.ecx ≠ 0 → m.df = false → m.es = m.ds →
    ∃ m', Reaches segment prog m m' ∧ m'.pc = words ∧ m'.ecx = m.ecx - 1 ∧ m'.edx = m.edx ∧
      m'.df = false ∧ m'.es = m'.ds ∧ T (k + 4) m'
  words_done : ∀ k m, T k m → m.pc = words → m.ecx = 0 →
    ∃ m', Reaches segment prog m m' ∧ m'.pc = rest ∧ m'.edx = m.edx ∧ T k m'
  last : ∀ k m, T k m → k < n → m.pc = rest → m.edx ≠ 0 →
    ∃ m', Reaches segment prog m m' ∧ m'.pc = rest ∧ m'.edx = m.edx - 1 ∧ T (k + 1) m'
  done : ∀ k m, T k m → m.pc = rest → m.edx = 0 → Ends segment prog m (T k)

namespace AlignedLoop

variable {words rest n k : ℕ} {T : ℕ → Machine → Prop}

/-- The last loop. -/
theorem ends_rest (h : AlignedLoop segment prog words rest n T) (hT : T k m)
    (hpc : m.pc = rest) (hn : k + m.edx.toNat = n) : Ends segment prog m (T n) := by
  have hround : ∀ k m, (T k m ∧ m.pc = rest ∧ k + m.edx.toNat = n) →
      Ends segment prog m (T n) ∨ ∃ k' m', k < k' ∧ k' ≤ n ∧ Reaches segment prog m m' ∧
        (T k' m' ∧ m'.pc = rest ∧ k' + m'.edx.toNat = n) := by
    rintro k m ⟨hT, hpc, hn⟩
    by_cases h0 : m.edx = 0
    · left
      have hk : k = n := by simpa [h0] using hn
      exact hk ▸ h.done k m hT hpc h0
    · right
      have hpos := toNat_pos h0
      obtain ⟨m', hm', hpc', hedx, hT'⟩ := h.last k m hT (by omega) hpc h0
      refine ⟨k + 1, m', by omega, by omega, hm', hT', hpc', ?_⟩
      rw [hedx, toNat_sub_one h0]
      omega
  exact Ends.until hround ⟨hT, hpc, hn⟩

/-- The string instruction, and what comes after it. -/
theorem ends_words (h : AlignedLoop segment prog words rest n T) (hT : T k m)
    (hpc : m.pc = words) (hdf : m.df = false) (hes : m.es = m.ds)
    (hn : k + 4 * m.ecx.toNat + m.edx.toNat = n) : Ends segment prog m (T n) := by
  have hround : ∀ k m, (T k m ∧ m.pc = words ∧ m.df = false ∧ m.es = m.ds ∧
        k + 4 * m.ecx.toNat + m.edx.toNat = n) →
      Ends segment prog m (T n) ∨ ∃ k' m', k < k' ∧ k' ≤ n ∧ Reaches segment prog m m' ∧
        (T k' m' ∧ m'.pc = words ∧ m'.df = false ∧ m'.es = m'.ds ∧
          k' + 4 * m'.ecx.toNat + m'.edx.toNat = n) := by
    rintro k m ⟨hT, hpc, hdf, hes, hn⟩
    by_cases h0 : m.ecx = 0
    · left
      obtain ⟨m', hm', hpc', hedx, hT'⟩ := h.words_done k m hT hpc h0
      refine (h.ends_rest hT' hpc' ?_).of_reaches hm'
      rw [hedx]
      simpa [h0] using hn
    · right
      have hpos := toNat_pos h0
      obtain ⟨m', hm', hpc', hecx, hedx, hdf', hes', hT'⟩ :=
        h.word k m hT (by omega) hpc h0 hdf hes
      refine ⟨k + 4, m', by omega, by omega, hm', hT', hpc', hdf', hes', ?_⟩
      rw [hecx, hedx, toNat_sub_one h0]
      omega
  exact Ends.until hround ⟨hT, hpc, hdf, hes, hn⟩

/-- The whole loop does all `n` bytes, wherever it starts. -/
theorem ends (h : AlignedLoop segment prog words rest n T) (hT : T 0 m)
    (hpc : m.pc = 0) (hn : m.ecx.toNat = n) : Ends segment prog m (T n) := by
  have hround : ∀ k m, (T k m ∧ m.pc = 0 ∧ k + m.ecx.toNat = n) →
      Ends segment prog m (T n) ∨ ∃ k' m', k < k' ∧ k' ≤ n ∧ Reaches segment prog m m' ∧
        (T k' m' ∧ m'.pc = 0 ∧ k' + m'.ecx.toNat = n) := by
    rintro k m ⟨hT, hpc, hn⟩
    by_cases h0 : m.ecx = 0
    · left
      have hk : k = n := by simpa [h0] using hn
      exact hk ▸ h.empty k m hT hpc h0
    · have hpos := toNat_pos h0
      by_cases hal : 3 &&& m.edi = 0
      · left
        obtain ⟨m', hm', hpc', hecx, hedx, hdf, hes, hT'⟩ := h.aligned k m hT hpc h0 hal
        refine (h.ends_words hT' hpc' hdf hes ?_).of_reaches hm'
        rw [hecx, hedx, add_assoc, toNat_shift_and, hn]
      · right
        obtain ⟨m', hm', hpc', hecx, hT'⟩ := h.byte k m hT (by omega) hpc h0 hal
        refine ⟨k + 1, m', by omega, by omega, hm', hT', hpc', ?_⟩
        rw [hecx, toNat_sub_one h0]
        omega
  refine Ends.until hround ⟨hT, hpc, ?_⟩
  rw [zero_add, hn]

end AlignedLoop

end Rules

end StringMachine
