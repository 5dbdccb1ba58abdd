import Kernel391.MemoryCopies

/-!
# `memmove`

One repeated byte move, forward or, when the destination is after the source, from the last
byte backward. Forward the state is that of `memcpy` (`Copying`); backward it is
`Backward`, which counts the bytes that are left.

The backward path sets the direction flag, and nothing clears it (`memmove_flag_set`).
-/

namespace Kernel391

open StringMachine

variable {segment : BitVec 16 → Word} {m m' start : Machine} {k n : ℕ}

/-! ## The program -/

inductive MemmoveLabel
  | memmove_go
deriving DecidableEq, Repr

def memmove_asm : List (Instr MemmoveLabel) :=
  [ .movw_ds_dx,
    .movw_dx_es,
    .cld,
    .cmpl (.reg .edi) .esi,
    .jae .memmove_go,
    .leal (-1) .esi .ecx .esi,
    .leal (-1) .edi .ecx .edi,
    .std,
    .label .memmove_go,
    .rep_movsb ]

/-- Entry of the assembly in `memmove(dest, src, n)`. -/
def memmove (m : Machine) (dest src n : Word) : Machine :=
  { m with pc := 0, edi := dest, esi := src, ecx := n }

/-! The blocks of the program. -/

section MemmoveBlocks

variable (segment)

theorem memmove_compare (hpc : m.pc = 0) : ∃ edx zf,
    run segment memmove_asm 5 m =
      some { m with
        pc := if decide (m.esi < m.edi) then 5 else 8
        edx := edx
        es := (m.edx.extractLsb' 16 16 ++ m.ds).setWidth 16
        zf := zf
        cf := m.esi < m.edi
        df := false } := by
  obtain ⟨pc, eax, ecx, edx, esi, edi, ds, es, zf, cf, df, mem⟩ := m
  cases hpc
  exact ⟨_, _, rfl⟩

theorem memmove_backward (hpc : m.pc = 5) :
    run segment memmove_asm 3 m =
      some { m with
        pc := 8
        esi := -1 + m.esi + m.ecx
        edi := -1 + m.edi + m.ecx
        df := true } := by
  obtain ⟨pc, eax, ecx, edx, esi, edi, ds, es, zf, cf, df, mem⟩ := m
  cases hpc
  rfl

theorem memmove_go (hpc : m.pc = 8) :
    run segment memmove_asm 1 m = some { m with pc := 9 } := by
  obtain ⟨pc, eax, ecx, edx, esi, edi, ds, es, zf, cf, df, mem⟩ := m
  cases hpc
  rfl

theorem memmove_move (hpc : m.pc = 9) :
    run segment memmove_asm 1 m =
      some (rep (movs segment 1 fun mem s d => store8 mem d (mem s)) m) := by
  obtain ⟨pc, eax, ecx, edx, esi, edi, ds, es, zf, cf, df, mem⟩ := m
  cases hpc
  rfl

end MemmoveBlocks

/-- Forward, an overlapping source is not written over before it is read. -/
theorem forward_apart {dest src : Word} (hle : dest ≤ src) (hsrc : src.toNat + n ≤ 2 ^ 32)
    (hk : k < n) : ∀ j < k, start.address segment src k ≠ start.address segment dest j := by
  intro j hj heq
  have hle' : dest.toNat ≤ src.toNat := hle
  rw [address_eq_iff (by omega) (by omega)] at heq
  omega

/-- The forward move. -/
theorem memmove_forward_ends {dest src : Word} (hle : dest ≤ src)
    (hsrc : src.toNat + n ≤ 2 ^ 32) (h : Copying segment start dest src k m)
    (hpc : m.pc = 9) (hdf : m.df = false) (hes : m.es = m.ds) (hn : k + m.ecx.toNat = n) :
    Ends segment memmove_asm m fun m' =>
      Copying segment start dest src n m' ∧ m'.df = false := by
  have hround : ∀ k m, (Copying segment start dest src k m ∧ m.pc = 9 ∧ m.df = false ∧
        m.es = m.ds ∧ k + m.ecx.toNat = n) →
      (Ends segment memmove_asm m fun m' =>
        Copying segment start dest src n m' ∧ m'.df = false) ∨
      ∃ k' m', k < k' ∧ k' ≤ n ∧ Reaches segment memmove_asm m m' ∧
        (Copying segment start dest src k' m' ∧ m'.pc = 9 ∧ m'.df = false ∧ m'.es = m'.ds ∧
          k' + m'.ecx.toNat = n) := by
    rintro k m ⟨h, hpc, hdf, hes, hn⟩
    have hmove := memmove_move segment hpc
    by_cases h0 : m.ecx = 0
    · left
      have hk : k = n := by simpa [h0] using hn
      rw [rep, if_pos h0] at hmove
      exact ⟨_, ⟨_, hmove⟩, congrArg (· + 1) hpc, hk ▸ h.same rfl rfl rfl rfl, hdf⟩
    · right
      have hpos := toNat_pos h0
      rw [rep, if_neg h0] at hmove
      have hstride : m.stride 1 = 1 := by rw [Machine.stride, if_neg (by simp [hdf])]
      refine ⟨k + 1, _, by omega, by omega, ⟨_, hmove⟩, ?_, hpc, hdf, hes, ?_⟩
      · refine h.store8 (by omega) (forward_apart hle hsrc (by omega)) ?_ ?_ ?_ rfl
        · show store8 m.mem (segment m.es + m.edi) (m.mem (segment m.ds + m.esi)) = _
          rw [hes]
        · show m.edi + m.stride 1 = m.edi + 1
          rw [hstride]
        · show m.esi + m.stride 1 = m.esi + 1
          rw [hstride]
      · show k + 1 + (m.ecx - 1).toNat = n
        rw [toNat_sub_one h0]
        omega
  exact Ends.until hround ⟨h, hpc, hdf, hes, hn⟩

/-- Backward, with `r` bytes still to be moved: those behind them are in place, and the
pointers are at the last byte of the rest. -/
structure Backward (segment : BitVec 16 → Word) (start : Machine) (dest src : Word) (n r : ℕ)
    (m : Machine) : Prop where
  mem : m.mem = written start.mem (segment start.ds + dest + BitVec.ofNat 32 r)
    (fun i => start.mem (start.address segment src (r + i))) (n - r)
  edi : m.edi = dest + BitVec.ofNat 32 r - 1
  esi : m.esi = src + BitVec.ofNat 32 r - 1
  ecx : m.ecx.toNat = r
  ds : m.ds = start.ds
  es : m.es = m.ds
  df : m.df = true

theorem ofNat_succ_sub_one (p : Word) (r : ℕ) :
    p + BitVec.ofNat 32 (r + 1) - 1 = p + BitVec.ofNat 32 r := by
  rw [BitVec.ofNat_add, ← BitVec.add_assoc]
  exact BitVec.add_sub_cancel _ _

/-- Backward, the source is not written over before it is read either. -/
theorem backward_apart {dest src : Word} {r : ℕ} (hlt : src < dest)
    (hdest : dest.toNat + n ≤ 2 ^ 32) (hr : r < n) : ∀ i < n - (r + 1),
      start.address segment src r
        ≠ segment start.ds + dest + BitVec.ofNat 32 (r + 1) + BitVec.ofNat 32 i := by
  intro i hi heq
  have hlt' : src.toNat < dest.toNat := hlt
  rw [BitVec.add_assoc, ← BitVec.ofNat_add, ← Machine.address_eq,
    address_eq_iff (by omega) (by omega)] at heq
  omega

/-- One byte, from the end. -/
theorem Backward.store8 {dest src : Word} {r : ℕ} (hlt : src < dest)
    (hdest : dest.toNat + n ≤ 2 ^ 32) (hr : r < n)
    (h : Backward segment start dest src n (r + 1) m)
    (hmem : m'.mem = StringMachine.store8 m.mem (segment m.ds + m.edi)
      (m.mem (segment m.ds + m.esi)))
    (hedi : m'.edi = m.edi - 1) (hesi : m'.esi = m.esi - 1) (hecx : m'.ecx = m.ecx - 1)
    (hds : m'.ds = m.ds) (hes : m'.es = m.es) (hdf : m'.df = m.df) :
    Backward segment start dest src n r m' := by
  have hecx0 : m.ecx ≠ 0 := by
    intro h0
    have hr0 := h.ecx
    rw [h0] at hr0
    cases hr0
  refine ⟨?_, ?_, ?_, ?_, hds.trans h.ds, ?_, hdf.trans h.df⟩
  · have hread : m.mem (segment m.ds + m.esi) = start.mem (start.address segment src r) := by
      rw [h.esi, h.ds, ofNat_succ_sub_one, h.mem]
      exact written_outside (backward_apart hlt hdest hr)
    have hnext : segment start.ds + dest + BitVec.ofNat 32 (r + 1)
        = segment start.ds + dest + BitVec.ofNat 32 r + BitVec.ofNat 32 1 := by
      rw [BitVec.ofNat_add, ← BitVec.add_assoc]
    rw [hmem, hread, h.edi, h.ds, ofNat_succ_sub_one, ← BitVec.add_assoc, h.mem, hnext]
    have hbyte : ∀ i < 1, start.mem (start.address segment src r)
        = start.mem (start.address segment src (r + i)) := by
      intro i hi
      rw [show i = 0 by omega, Nat.add_zero]
    have hlen : 1 + (n - (r + 1)) = n - r := by omega
    have hrest : ∀ i < n - (r + 1), start.mem (start.address segment src (r + 1 + i))
        = start.mem (start.address segment src (r + (1 + i))) := by
      intro i _
      rw [Nat.add_assoc]
    rw [StringMachine.store8, written_congr hbyte, written_before hrest, hlen]
  · rw [hedi, h.edi, ofNat_succ_sub_one]
  · rw [hesi, h.esi, ofNat_succ_sub_one]
  · rw [hecx, toNat_sub_one hecx0, h.ecx, Nat.add_sub_cancel]
  · rw [hes, hds, h.es]

/-- The backward move: the direction flag stays set. -/
theorem memmove_backward_ends {dest src : Word} {r : ℕ} (hlt : src < dest)
    (hdest : dest.toNat + n ≤ 2 ^ 32) (hr : r ≤ n) (h : Backward segment start dest src n r m)
    (hpc : m.pc = 9) : Ends segment memmove_asm m fun m' =>
      Backward segment start dest src n 0 m' := by
  induction r generalizing m with
  | zero =>
    have hmove := memmove_move segment hpc
    have h0 : m.ecx = 0 := BitVec.eq_of_toNat_eq h.ecx
    rw [rep, if_pos h0] at hmove
    exact ⟨_, ⟨_, hmove⟩, congrArg (· + 1) hpc, h.mem, h.edi, h.esi, h.ecx, h.ds, h.es, h.df⟩
  | succ r ih =>
    have hmove := memmove_move segment hpc
    have h0 : m.ecx ≠ 0 := by
      intro h0
      have hr0 := h.ecx
      rw [h0] at hr0
      cases hr0
    rw [rep, if_neg h0] at hmove
    have hstride : m.stride 1 = -1 := by rw [Machine.stride, if_pos h.df]
    refine .of_reaches ⟨_, hmove⟩ (ih (by omega) ?_ hpc)
    refine h.store8 hlt hdest (by omega) ?_ ?_ ?_ rfl rfl rfl rfl
    · show store8 m.mem (segment m.es + m.edi) (m.mem (segment m.ds + m.esi)) = _
      rw [h.es]
    · show m.edi + m.stride 1 = m.edi - 1
      rw [hstride, BitVec.sub_eq_add_neg]
    · show m.esi + m.stride 1 = m.esi - 1
      rw [hstride, BitVec.sub_eq_add_neg]

/-- The bytes `memmove` is to move, and the direction flag it is to leave clear. -/
def Moved (segment : BitVec 16 → Word) (m : Machine) (dest src n : Word) (m' : Machine) : Prop :=
  Overwrites segment m dest (fun i => m.mem (m.address segment src i)) n.toNat m'

/-- What both directions have in common at the repeated instruction. -/
structure Entered (m : Machine) (n : Word) (m' : Machine) : Prop where
  pc : m'.pc = 9
  mem : m'.mem = m.mem
  ds : m'.ds = m.ds
  es : m'.es = m'.ds
  ecx : m'.ecx = n

theorem memmove_enter_forward {dest src : Word} (n : Word) (h : ¬ src < dest) :
    ∃ m', Reaches segment memmove_asm (memmove m dest src n) m' ∧ Entered m n m' ∧
      m'.edi = dest ∧ m'.esi = src ∧ m'.df = false := by
  obtain ⟨edx, zf, hcompare⟩ := memmove_compare segment (m := memmove m dest src n) rfl
  have hnot : ¬ decide ((memmove m dest src n).esi < (memmove m dest src n).edi) = true :=
    fun hlt => h (of_decide_eq_true hlt)
  rw [if_neg hnot] at hcompare
  have hgo := memmove_go segment (m := { memmove m dest src n with
    pc := 8
    edx := edx
    es := (m.edx.extractLsb' 16 16 ++ m.ds).setWidth 16
    zf := zf
    cf := src < dest
    df := false }) rfl
  exact ⟨_, .trans ⟨_, hcompare⟩ ⟨_, hgo⟩, ⟨rfl, rfl, rfl, setWidth_append_low _ _, rfl⟩,
    rfl, rfl, rfl⟩

theorem memmove_enter_backward {dest src : Word} (n : Word) (h : src < dest) :
    ∃ m', Reaches segment memmove_asm (memmove m dest src n) m' ∧ Entered m n m' ∧
      m'.edi = -1 + dest + n ∧ m'.esi = -1 + src + n ∧ m'.df = true := by
  obtain ⟨edx, zf, hcompare⟩ := memmove_compare segment (m := memmove m dest src n) rfl
  have hless : decide ((memmove m dest src n).esi < (memmove m dest src n).edi) = true :=
    decide_eq_true h
  rw [if_pos hless] at hcompare
  have hback := memmove_backward segment (m := { memmove m dest src n with
    pc := 5
    edx := edx
    es := (m.edx.extractLsb' 16 16 ++ m.ds).setWidth 16
    zf := zf
    cf := src < dest
    df := false }) rfl
  have hgo := memmove_go segment (m := { memmove m dest src n with
    pc := 8
    edx := edx
    es := (m.edx.extractLsb' 16 16 ++ m.ds).setWidth 16
    zf := zf
    cf := src < dest
    esi := -1 + src + n
    edi := -1 + dest + n
    df := true }) rfl
  exact ⟨_, .trans ⟨_, hcompare⟩ (.trans ⟨_, hback⟩ ⟨_, hgo⟩),
    ⟨rfl, rfl, rfl, setWidth_append_low _ _, rfl⟩, rfl, rfl, rfl⟩

/-- From a destination that is not after the source. -/
theorem memmove_ends_forward {dest src n : Word} (hle : ¬ src < dest)
    (hsrc : src.toNat + n.toNat ≤ 2 ^ 32) :
    Ends segment memmove_asm (memmove m dest src n) fun m' =>
      Moved segment m dest src n m' ∧ m'.df = false := by
  obtain ⟨m₁, hreach, hentered, hedi, hesi, hdf⟩ := memmove_enter_forward n hle
  have hstart : Copying segment m dest src 0 m₁ :=
    ⟨.zero hentered.mem hedi hentered.ds, hesi.trans (BitVec.add_zero src).symm⟩
  have hcount : 0 + m₁.ecx.toNat = n.toNat := by rw [hentered.ecx, Nat.zero_add]
  refine .of_reaches hreach ((memmove_forward_ends (BitVec.not_lt.mp hle) hsrc hstart
    hentered.pc hdf hentered.es hcount).mono fun m' hm' => ?_)
  exact ⟨overwrites_written n.isLt.le hm'.1.1.mem, hm'.2⟩

/-- To a destination after the source. -/
theorem memmove_ends_backward {dest src n : Word} (hlt : src < dest)
    (hdest : dest.toNat + n.toNat ≤ 2 ^ 32) :
    Ends segment memmove_asm (memmove m dest src n) fun m' =>
      Moved segment m dest src n m' ∧ m'.df = true := by
  obtain ⟨m₁, hreach, hentered, hedi, hesi, hdf⟩ := memmove_enter_backward n hlt
  have hlast : ∀ p : Word, -1 + p + n = p + BitVec.ofNat 32 n.toNat - 1 := by
    intro p
    rw [BitVec.ofNat_toNat, BitVec.setWidth_eq, BitVec.sub_eq_add_neg, BitVec.add_assoc,
      BitVec.add_comm]
  have hstart : Backward segment m dest src n.toNat n.toNat m₁ :=
    ⟨by rw [Nat.sub_self, written_zero, hentered.mem], hedi.trans (hlast dest),
      hesi.trans (hlast src), by rw [hentered.ecx], hentered.ds, hentered.es, hdf⟩
  refine .of_reaches hreach ((memmove_backward_ends hlt hdest le_rfl hstart
    hentered.pc).mono fun m' hm' => ⟨?_, hm'.df⟩)
  refine overwrites_written n.isLt.le (hm'.mem.trans ?_)
  rw [BitVec.add_zero, Nat.sub_zero]
  exact written_congr fun i _ => by rw [Nat.zero_add]

/-- The bytes arrive however the ranges overlap. -/
theorem memmove_ends {dest src n : Word} (hdest : dest.toNat + n.toNat ≤ 2 ^ 32)
    (hsrc : src.toNat + n.toNat ≤ 2 ^ 32) :
    Ends segment memmove_asm (memmove m dest src n) (Moved segment m dest src n) := by
  by_cases hlt : src < dest
  · exact (memmove_ends_backward hlt hdest).mono fun m' hm' => hm'.1
  · exact (memmove_ends_forward hlt hsrc).mono fun m' hm' => hm'.1

/-- But after a backward move the direction flag is set. -/
theorem memmove_flag_set {dest src n : Word} {Q : Machine → Prop} (hlt : src < dest)
    (hdest : dest.toNat + n.toNat ≤ 2 ^ 32) :
    ¬ Ends segment memmove_asm (memmove m dest src n) fun m' => Q m' ∧ m'.df = false := by
  intro hends
  obtain ⟨m', -, -, ⟨-, hclear⟩, -, hset⟩ := hends.and (memmove_ends_backward hlt hdest)
  rw [hclear] at hset
  cases hset

/-- The bytes arrive and the direction flag is clear exactly if the destination is not
after the source. -/
theorem memmove_exact_iff (segment : BitVec 16 → Word) (m : Machine) (dest src n : Word)
    (hdest : dest.toNat + n.toNat ≤ 2 ^ 32) (hsrc : src.toNat + n.toNat ≤ 2 ^ 32) :
    (Ends segment memmove_asm (memmove m dest src n) fun m' =>
      Moved segment m dest src n m' ∧ m'.df = false) ↔ dest ≤ src := by
  constructor
  · intro hends
    by_contra hle
    exact memmove_flag_set (BitVec.not_le.mp hle) hdest hends
  · intro hle
    exact memmove_ends_forward (BitVec.not_lt.mpr hle) hsrc

theorem memmove_exact_iff_sample :
    (Ends (fun _ => 0) memmove_asm (memmove countingMachine 0x100 0x102 10) fun m' =>
      Moved (fun _ => 0) countingMachine 0x100 0x102 10 m' ∧ m'.df = false) ↔
      (0x100 : Word) ≤ 0x102 :=
  memmove_exact_iff (fun _ => 0) countingMachine 0x100 0x102 10 (by decide) (by decide)

/-- One byte moved to the next address. -/
theorem memmove_flag_left_set :
    ¬ Ends (fun _ => 0) memmove_asm (memmove countingMachine 0x101 0x100 1) fun m' =>
      Moved (fun _ => 0) countingMachine 0x101 0x100 1 m' ∧ m'.df = false :=
  memmove_flag_set (by decide) (by decide)

end Kernel391
