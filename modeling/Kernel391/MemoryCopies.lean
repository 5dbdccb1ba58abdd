import Kernel391.Lib.StringMachine

/-!
# `memset` and `memcpy`

Both are inline assembly. Each is kept line by line, labels included, as a program of the
string machine; its entry state is what the compiler's constraints put into the registers.

Both go through three loops: bytes up to an aligned destination, double words, and the
bytes left over. `memset_loop` and `memcpy_loop` say what one round of each does, as an
`AlignedLoop`; the library's `AlignedLoop.ends` puts the rounds together.
-/

namespace Kernel391

open StringMachine

/-! ## The programs -/

inductive MemsetLabel
  | memset_top | memset_aligned | memset_bottom | memset_done
deriving DecidableEq, Repr

def memset_asm : List (Instr MemsetLabel) :=
  [ .label .memset_top,
    .testl (.reg .ecx) .ecx,
    .jz .memset_done,
    .testl (.imm 0x3) .edi,
    .jz .memset_aligned,
    .movb_to .edi,
    .addl (.imm 1) .edi,
    .subl (.imm 1) .ecx,
    .jmp .memset_top,
    .label .memset_aligned,
    .movw_ds_dx,
    .movw_dx_es,
    .movl (.reg .ecx) .edx,
    .shrl 2 .ecx,
    .andl (.imm 0x3) .edx,
    .cld,
    .rep_stosl,
    .label .memset_bottom,
    .testl (.reg .edx) .edx,
    .jz .memset_done,
    .movb_to .edi,
    .addl (.imm 1) .edi,
    .subl (.imm 1) .edx,
    .jmp .memset_bottom,
    .label .memset_done ]

/-- The double word of four copies of a byte. -/
def fill (c : Word) : Word :=
  let c := c &&& 0xFF
  c <<< 24 ||| c <<< 16 ||| c <<< 8 ||| c

/-- Entry of the assembly in `memset(s, c, n)`. -/
def memset (m : Machine) (s c n : Word) : Machine :=
  { m with pc := 0, eax := fill c, edi := s, ecx := n }

inductive MemcpyLabel
  | memcpy_top | memcpy_aligned | memcpy_bottom | memcpy_done
deriving DecidableEq, Repr

def memcpy_asm : List (Instr MemcpyLabel) :=
  [ .label .memcpy_top,
    .testl (.reg .ecx) .ecx,
    .jz .memcpy_done,
    .testl (.imm 0x3) .edi,
    .jz .memcpy_aligned,
    .movb_from .esi,
    .movb_to .edi,
    .addl (.imm 1) .edi,
    .addl (.imm 1) .esi,
    .subl (.imm 1) .ecx,
    .jmp .memcpy_top,
    .label .memcpy_aligned,
    .movw_ds_dx,
    .movw_dx_es,
    .movl (.reg .ecx) .edx,
    .shrl 2 .ecx,
    .andl (.imm 0x3) .edx,
    .cld,
    .rep_movsl,
    .label .memcpy_bottom,
    .testl (.reg .edx) .edx,
    .jz .memcpy_done,
    .movb_from .esi,
    .movb_to .edi,
    .addl (.imm 1) .edi,
    .addl (.imm 1) .esi,
    .subl (.imm 1) .edx,
    .jmp .memcpy_bottom,
    .label .memcpy_done ]

/-- Entry of the assembly in `memcpy(dest, src, n)`. -/
def memcpy (m : Machine) (dest src n : Word) : Machine :=
  { m with pc := 0, esi := src, edi := dest, ecx := n }

/-! ## `memset` -/

variable {segment : BitVec 16 → Word} {m m' start : Machine} {k n : ℕ}

theorem byteOf_fill (c : Word) {i : ℕ} (hi : i < 4) : byteOf (fill c) i = c.setWidth 8 := by
  unfold byteOf fill
  apply BitVec.eq_of_getLsbD_eq
  intro j hj
  interval_cases i <;> interval_cases j <;> simp

/-- What `memset` keeps: the fill value stays in `eax`. -/
def Filling (segment : BitVec 16 → Word) (start : Machine) (s c : Word) (k : ℕ)
    (m : Machine) : Prop :=
  Progress segment start s (fun _ => c.setWidth 8) k m ∧ m.eax = fill c

/-! The blocks of the program, each from its first line to where it leaves it. -/

section MemsetBlocks

variable (segment)

theorem memset_top (hpc : m.pc = 0) : ∃ zf cf,
    run segment memset_asm 3 m =
      some { m with pc := if m.ecx &&& m.ecx == 0 then 24 else 3, zf := zf, cf := cf } := by
  obtain ⟨pc, eax, ecx, edx, esi, edi, ds, es, zf, cf, df, mem⟩ := m
  cases hpc
  exact ⟨_, _, rfl⟩

theorem memset_alignment (hpc : m.pc = 3) : ∃ zf cf,
    run segment memset_asm 2 m =
      some { m with pc := if 3 &&& m.edi == 0 then 9 else 5, zf := zf, cf := cf } := by
  obtain ⟨pc, eax, ecx, edx, esi, edi, ds, es, zf, cf, df, mem⟩ := m
  cases hpc
  exact ⟨_, _, rfl⟩

theorem memset_byte (hpc : m.pc = 5) : ∃ zf cf,
    run segment memset_asm 4 m =
      some { m with
        pc := 0
        mem := store8 m.mem (segment m.ds + m.edi) m.al
        edi := m.edi + 1
        ecx := m.ecx - 1
        zf := zf
        cf := cf } := by
  obtain ⟨pc, eax, ecx, edx, esi, edi, ds, es, zf, cf, df, mem⟩ := m
  cases hpc
  exact ⟨_, _, rfl⟩

theorem memset_aligned (hpc : m.pc = 9) : ∃ zf cf,
    run segment memset_asm 7 m =
      some { m with
        pc := 16
        ecx := m.ecx >>> 2
        edx := m.ecx &&& 3
        es := (m.edx.extractLsb' 16 16 ++ m.ds).setWidth 16
        zf := zf
        cf := cf
        df := false } := by
  obtain ⟨pc, eax, ecx, edx, esi, edi, ds, es, zf, cf, df, mem⟩ := m
  cases hpc
  exact ⟨_, _, rfl⟩

theorem memset_words (hpc : m.pc = 16) :
    run segment memset_asm 1 m = some (rep (stosl segment) m) := by
  obtain ⟨pc, eax, ecx, edx, esi, edi, ds, es, zf, cf, df, mem⟩ := m
  cases hpc
  rfl

theorem memset_bottom (hpc : m.pc = 17) : ∃ zf cf,
    run segment memset_asm 3 m =
      some { m with pc := if m.edx &&& m.edx == 0 then 24 else 20, zf := zf, cf := cf } := by
  obtain ⟨pc, eax, ecx, edx, esi, edi, ds, es, zf, cf, df, mem⟩ := m
  cases hpc
  exact ⟨_, _, rfl⟩

theorem memset_last (hpc : m.pc = 20) : ∃ zf cf,
    run segment memset_asm 4 m =
      some { m with
        pc := 17
        mem := store8 m.mem (segment m.ds + m.edi) m.al
        edi := m.edi + 1
        edx := m.edx - 1
        zf := zf
        cf := cf } := by
  obtain ⟨pc, eax, ecx, edx, esi, edi, ds, es, zf, cf, df, mem⟩ := m
  cases hpc
  exact ⟨_, _, rfl⟩

theorem memset_done (hpc : m.pc = 24) : run segment memset_asm 1 m = some m.next := by
  obtain ⟨pc, eax, ecx, edx, esi, edi, ds, es, zf, cf, df, mem⟩ := m
  cases hpc
  rfl

end MemsetBlocks

/-- One byte of `memset`. -/
theorem Filling.store8 {s c : Word} (h : Filling segment start s c k m) (hk : k < 2 ^ 32)
    (hmem : m'.mem = store8 m.mem (segment m.ds + m.edi) m.al) (hedi : m'.edi = m.edi + 1)
    (hds : m'.ds = m.ds) (heax : m'.eax = m.eax) : Filling segment start s c (k + 1) m' := by
  refine ⟨h.1.add hk (fun i _ => ?_) hmem hedi hds, heax.trans h.2⟩
  have hfill := byteOf_fill c (i := 0) (by omega)
  rw [Machine.al, h.2, ← hfill]
  exact BitVec.setWidth_eq_extractLsb' (by omega)

/-- One double word. -/
theorem Filling.store32 {s c : Word} (h : Filling segment start s c k m) (hk : k + 4 ≤ 2 ^ 32)
    (hmem : m'.mem = store32 m.mem (segment m.ds + m.edi) m.eax) (hedi : m'.edi = m.edi + 4)
    (hds : m'.ds = m.ds) (heax : m'.eax = m.eax) : Filling segment start s c (k + 4) m' := by
  refine ⟨h.1.add hk (fun i hi => ?_) hmem hedi hds, heax.trans h.2⟩
  rw [h.2, byteOf_fill c hi]

theorem Filling.same {s c : Word} (h : Filling segment start s c k m) (hmem : m'.mem = m.mem)
    (hedi : m'.edi = m.edi) (hds : m'.ds = m.ds) (heax : m'.eax = m.eax) :
    Filling segment start s c k m' :=
  ⟨⟨hmem.trans h.1.mem, hedi.trans h.1.edi, hds.trans h.1.ds⟩, heax.trans h.2⟩

theorem memset_loop (s c : Word) (hn : n ≤ 2 ^ 32) :
    AlignedLoop segment memset_asm 16 17 n (Filling segment start s c) where
  byte k m hT hk hpc h0 hal := by
    obtain ⟨z₁, c₁, htop⟩ := memset_top segment hpc
    rw [BitVec.and_self, if_neg (by simpa using h0)] at htop
    obtain ⟨z₂, c₂, halign⟩ :=
      memset_alignment segment (m := { m with pc := 3, zf := z₁, cf := c₁ }) rfl
    rw [if_neg (by simpa using hal)] at halign
    obtain ⟨z₃, c₃, hbyte⟩ :=
      memset_byte segment (m := { m with pc := 5, zf := z₂, cf := c₂ }) rfl
    exact ⟨_, .trans ⟨_, htop⟩ (.trans ⟨_, halign⟩ ⟨_, hbyte⟩), rfl, rfl,
      hT.store8 (by omega) rfl rfl rfl rfl⟩
  aligned k m hT hpc h0 hal := by
    obtain ⟨z₁, c₁, htop⟩ := memset_top segment hpc
    rw [BitVec.and_self, if_neg (by simpa using h0)] at htop
    obtain ⟨z₂, c₂, halign⟩ :=
      memset_alignment segment (m := { m with pc := 3, zf := z₁, cf := c₁ }) rfl
    rw [if_pos (by simpa using hal)] at halign
    obtain ⟨z₃, c₃, hsetup⟩ :=
      memset_aligned segment (m := { m with pc := 9, zf := z₂, cf := c₂ }) rfl
    exact ⟨_, .trans ⟨_, htop⟩ (.trans ⟨_, halign⟩ ⟨_, hsetup⟩), rfl, rfl, rfl, rfl,
      setWidth_append_low _ _, hT.same rfl rfl rfl rfl⟩
  empty k m hT hpc h0 := by
    obtain ⟨z₁, c₁, htop⟩ := memset_top segment hpc
    rw [BitVec.and_self, if_pos (by simpa using h0)] at htop
    have hdone := memset_done segment (m := { m with pc := 24, zf := z₁, cf := c₁ }) rfl
    exact ⟨_, .trans ⟨_, htop⟩ ⟨_, hdone⟩, rfl, hT.same rfl rfl rfl rfl⟩
  word k m hT hk hpc h0 hdf hes := by
    have hword := memset_words segment hpc
    rw [rep, if_neg h0] at hword
    refine ⟨_, ⟨_, hword⟩, hpc, rfl, rfl, hdf, hes, hT.store32 (by omega) ?_ ?_ rfl rfl⟩
    · rw [← hes]
      rfl
    · show m.edi + m.stride 4 = m.edi + 4
      rw [Machine.stride, if_neg (by simp [hdf])]
  words_done k m hT hpc h0 := by
    have hword := memset_words segment hpc
    rw [rep, if_pos h0] at hword
    exact ⟨_, ⟨_, hword⟩, congrArg (· + 1) hpc, rfl, hT.same rfl rfl rfl rfl⟩
  last k m hT hk hpc h0 := by
    obtain ⟨z₁, c₁, hbottom⟩ := memset_bottom segment hpc
    rw [BitVec.and_self, if_neg (by simpa using h0)] at hbottom
    obtain ⟨z₂, c₂, hlast⟩ :=
      memset_last segment (m := { m with pc := 20, zf := z₁, cf := c₁ }) rfl
    exact ⟨_, .trans ⟨_, hbottom⟩ ⟨_, hlast⟩, rfl, rfl,
      hT.store8 (by omega) rfl rfl rfl rfl⟩
  done k m hT hpc h0 := by
    obtain ⟨z₁, c₁, hbottom⟩ := memset_bottom segment hpc
    rw [BitVec.and_self, if_pos (by simpa using h0)] at hbottom
    have hdone := memset_done segment (m := { m with pc := 24, zf := z₁, cf := c₁ }) rfl
    exact ⟨_, .trans ⟨_, hbottom⟩ ⟨_, hdone⟩, rfl, hT.same rfl rfl rfl rfl⟩

/-! ## `memcpy` -/

section MemcpyBlocks

variable (segment)

theorem memcpy_top (hpc : m.pc = 0) : ∃ zf cf,
    run segment memcpy_asm 3 m =
      some { m with pc := if m.ecx &&& m.ecx == 0 then 28 else 3, zf := zf, cf := cf } := by
  obtain ⟨pc, eax, ecx, edx, esi, edi, ds, es, zf, cf, df, mem⟩ := m
  cases hpc
  exact ⟨_, _, rfl⟩

theorem memcpy_alignment (hpc : m.pc = 3) : ∃ zf cf,
    run segment memcpy_asm 2 m =
      some { m with pc := if 3 &&& m.edi == 0 then 11 else 5, zf := zf, cf := cf } := by
  obtain ⟨pc, eax, ecx, edx, esi, edi, ds, es, zf, cf, df, mem⟩ := m
  cases hpc
  exact ⟨_, _, rfl⟩

theorem memcpy_byte (hpc : m.pc = 5) : ∃ zf cf,
    run segment memcpy_asm 6 m =
      some { m with
        pc := 0
        eax := m.eax.extractLsb' 8 24 ++ m.mem (segment m.ds + m.esi)
        mem := store8 m.mem (segment m.ds + m.edi) (m.setAl (m.mem (segment m.ds + m.esi))).al
        edi := m.edi + 1
        esi := m.esi + 1
        ecx := m.ecx - 1
        zf := zf
        cf := cf } := by
  obtain ⟨pc, eax, ecx, edx, esi, edi, ds, es, zf, cf, df, mem⟩ := m
  cases hpc
  exact ⟨_, _, rfl⟩

theorem memcpy_aligned (hpc : m.pc = 11) : ∃ zf cf,
    run segment memcpy_asm 7 m =
      some { m with
        pc := 18
        ecx := m.ecx >>> 2
        edx := m.ecx &&& 3
        es := (m.edx.extractLsb' 16 16 ++ m.ds).setWidth 16
        zf := zf
        cf := cf
        df := false } := by
  obtain ⟨pc, eax, ecx, edx, esi, edi, ds, es, zf, cf, df, mem⟩ := m
  cases hpc
  exact ⟨_, _, rfl⟩

theorem memcpy_words (hpc : m.pc = 18) :
    run segment memcpy_asm 1 m =
      some (rep (movs segment 4 fun mem s d => store32 mem d (load32 mem s)) m) := by
  obtain ⟨pc, eax, ecx, edx, esi, edi, ds, es, zf, cf, df, mem⟩ := m
  cases hpc
  rfl

theorem memcpy_bottom (hpc : m.pc = 19) : ∃ zf cf,
    run segment memcpy_asm 3 m =
      some { m with pc := if m.edx &&& m.edx == 0 then 28 else 22, zf := zf, cf := cf } := by
  obtain ⟨pc, eax, ecx, edx, esi, edi, ds, es, zf, cf, df, mem⟩ := m
  cases hpc
  exact ⟨_, _, rfl⟩

theorem memcpy_last (hpc : m.pc = 22) : ∃ zf cf,
    run segment memcpy_asm 6 m =
      some { m with
        pc := 19
        eax := m.eax.extractLsb' 8 24 ++ m.mem (segment m.ds + m.esi)
        mem := store8 m.mem (segment m.ds + m.edi) (m.setAl (m.mem (segment m.ds + m.esi))).al
        edi := m.edi + 1
        esi := m.esi + 1
        edx := m.edx - 1
        zf := zf
        cf := cf } := by
  obtain ⟨pc, eax, ecx, edx, esi, edi, ds, es, zf, cf, df, mem⟩ := m
  cases hpc
  exact ⟨_, _, rfl⟩

theorem memcpy_done (hpc : m.pc = 28) : run segment memcpy_asm 1 m = some m.next := by
  obtain ⟨pc, eax, ecx, edx, esi, edi, ds, es, zf, cf, df, mem⟩ := m
  cases hpc
  rfl

end MemcpyBlocks

/-- No byte of the source is one of the destination. -/
def Apart (segment : BitVec 16 → Word) (start : Machine) (dest src : Word) (n : ℕ) : Prop :=
  ∀ i < n, ∀ j < n, start.address segment src i ≠ start.address segment dest j

/-- What `memcpy` keeps: `esi` goes along with `edi`. -/
def Copying (segment : BitVec 16 → Word) (start : Machine) (dest src : Word) (k : ℕ)
    (m : Machine) : Prop :=
  Progress segment start dest (fun i => start.mem (start.address segment src i)) k m ∧
    m.esi = src + BitVec.ofNat 32 k

/-- A byte of the source that has not been written over is that of the start. -/
theorem Copying.source {dest src : Word} (h : Copying segment start dest src k m) {i : ℕ}
    (hi : ∀ j < k, start.address segment src (k + i) ≠ start.address segment dest j) :
    m.mem (segment m.ds + m.esi + BitVec.ofNat 32 i)
      = start.mem (start.address segment src (k + i)) := by
  have haddr : segment m.ds + m.esi + BitVec.ofNat 32 i = start.address segment src (k + i) := by
    rw [h.2, h.1.ds, Machine.address_eq, BitVec.ofNat_add, ← BitVec.add_assoc,
      ← BitVec.add_assoc]
  rw [haddr, h.1.mem_outside hi]

/-- One byte. -/
theorem Copying.store8 {dest src : Word} (h : Copying segment start dest src k m)
    (hk : k < 2 ^ 32)
    (hsrc : ∀ j < k, start.address segment src k ≠ start.address segment dest j)
    (hmem : m'.mem = StringMachine.store8 m.mem (segment m.ds + m.edi)
      (m.mem (segment m.ds + m.esi)))
    (hedi : m'.edi = m.edi + 1) (hesi : m'.esi = m.esi + BitVec.ofNat 32 1)
    (hds : m'.ds = m.ds) : Copying segment start dest src (k + 1) m' := by
  refine ⟨h.1.add hk (fun i hi => ?_) hmem hedi hds, ?_⟩
  · have hsource := h.source (i := 0) hsrc
    rw [BitVec.add_zero] at hsource
    rw [hsource, show i = 0 by omega]
  · rw [hesi, h.2, BitVec.add_assoc, ← BitVec.ofNat_add]

/-- One double word. -/
theorem Copying.store32 {dest src : Word} (h : Copying segment start dest src k m)
    (hk : k + 4 ≤ 2 ^ 32) (hdisj : Apart segment start dest src n) (hn : k + 4 ≤ n)
    (hmem : m'.mem = StringMachine.store32 m.mem (segment m.ds + m.edi)
      (load32 m.mem (segment m.ds + m.esi)))
    (hedi : m'.edi = m.edi + 4) (hesi : m'.esi = m.esi + BitVec.ofNat 32 4) (hds : m'.ds = m.ds) :
    Copying segment start dest src (k + 4) m' := by
  refine ⟨h.1.add hk (fun i hi => ?_) hmem hedi hds, ?_⟩
  · rw [byteOf_load32 _ _ hi, h.source fun j hj => hdisj _ (by omega) j (by omega)]
  · rw [hesi, h.2, BitVec.add_assoc, ← BitVec.ofNat_add]

theorem Copying.same {dest src : Word} (h : Copying segment start dest src k m)
    (hmem : m'.mem = m.mem) (hedi : m'.edi = m.edi) (hesi : m'.esi = m.esi)
    (hds : m'.ds = m.ds) : Copying segment start dest src k m' :=
  ⟨⟨hmem.trans h.1.mem, hedi.trans h.1.edi, hds.trans h.1.ds⟩, hesi.trans h.2⟩

theorem memcpy_loop (dest src : Word) (hn : n ≤ 2 ^ 32)
    (hdisj : Apart segment start dest src n) :
    AlignedLoop segment memcpy_asm 18 19 n (Copying segment start dest src) where
  byte k m hT hk hpc h0 hal := by
    obtain ⟨z₁, c₁, htop⟩ := memcpy_top segment hpc
    rw [BitVec.and_self, if_neg (by simpa using h0)] at htop
    obtain ⟨z₂, c₂, halign⟩ :=
      memcpy_alignment segment (m := { m with pc := 3, zf := z₁, cf := c₁ }) rfl
    rw [if_neg (by simpa using hal)] at halign
    obtain ⟨z₃, c₃, hbyte⟩ :=
      memcpy_byte segment (m := { m with pc := 5, zf := z₂, cf := c₂ }) rfl
    exact ⟨_, .trans ⟨_, htop⟩ (.trans ⟨_, halign⟩ ⟨_, hbyte⟩), rfl, rfl,
      hT.store8 (by omega) (fun j hj => hdisj k hk j (by omega))
        (congrArg (store8 _ _) (al_setAl _ _)) rfl rfl rfl⟩
  aligned k m hT hpc h0 hal := by
    obtain ⟨z₁, c₁, htop⟩ := memcpy_top segment hpc
    rw [BitVec.and_self, if_neg (by simpa using h0)] at htop
    obtain ⟨z₂, c₂, halign⟩ :=
      memcpy_alignment segment (m := { m with pc := 3, zf := z₁, cf := c₁ }) rfl
    rw [if_pos (by simpa using hal)] at halign
    obtain ⟨z₃, c₃, hsetup⟩ :=
      memcpy_aligned segment (m := { m with pc := 11, zf := z₂, cf := c₂ }) rfl
    exact ⟨_, .trans ⟨_, htop⟩ (.trans ⟨_, halign⟩ ⟨_, hsetup⟩), rfl, rfl, rfl, rfl,
      setWidth_append_low _ _, hT.same rfl rfl rfl rfl⟩
  empty k m hT hpc h0 := by
    obtain ⟨z₁, c₁, htop⟩ := memcpy_top segment hpc
    rw [BitVec.and_self, if_pos (by simpa using h0)] at htop
    have hdone := memcpy_done segment (m := { m with pc := 28, zf := z₁, cf := c₁ }) rfl
    exact ⟨_, .trans ⟨_, htop⟩ ⟨_, hdone⟩, rfl, hT.same rfl rfl rfl rfl⟩
  word k m hT hk hpc h0 hdf hes := by
    have hword := memcpy_words segment hpc
    rw [rep, if_neg h0] at hword
    refine ⟨_, ⟨_, hword⟩, hpc, rfl, rfl, hdf, hes, hT.store32 (by omega) hdisj hk ?_ ?_ ?_ rfl⟩
    · show store32 m.mem (segment m.es + m.edi) (load32 m.mem (segment m.ds + m.esi)) = _
      rw [hes]
    · show m.edi + m.stride 4 = m.edi + 4
      rw [Machine.stride, if_neg (by simp [hdf])]
    · show m.esi + m.stride 4 = m.esi + 4
      rw [Machine.stride, if_neg (by simp [hdf])]
  words_done k m hT hpc h0 := by
    have hword := memcpy_words segment hpc
    rw [rep, if_pos h0] at hword
    exact ⟨_, ⟨_, hword⟩, congrArg (· + 1) hpc, rfl, hT.same rfl rfl rfl rfl⟩
  last k m hT hk hpc h0 := by
    obtain ⟨z₁, c₁, hbottom⟩ := memcpy_bottom segment hpc
    rw [BitVec.and_self, if_neg (by simpa using h0)] at hbottom
    obtain ⟨z₂, c₂, hlast⟩ :=
      memcpy_last segment (m := { m with pc := 22, zf := z₁, cf := c₁ }) rfl
    exact ⟨_, .trans ⟨_, hbottom⟩ ⟨_, hlast⟩, rfl, rfl,
      hT.store8 (by omega) (fun j hj => hdisj k hk j (by omega))
        (congrArg (store8 _ _) (al_setAl _ _)) rfl rfl rfl⟩
  done k m hT hpc h0 := by
    obtain ⟨z₁, c₁, hbottom⟩ := memcpy_bottom segment hpc
    rw [BitVec.and_self, if_pos (by simpa using h0)] at hbottom
    have hdone := memcpy_done segment (m := { m with pc := 28, zf := z₁, cf := c₁ }) rfl
    exact ⟨_, .trans ⟨_, hbottom⟩ ⟨_, hdone⟩, rfl, hT.same rfl rfl rfl rfl⟩

/-! ## Both -/

theorem toNat_add_ofNat {p : Word} {i : ℕ} (h : p.toNat + i < 2 ^ 32) :
    (p + BitVec.ofNat 32 i).toNat = p.toNat + i := by
  rw [BitVec.toNat_add, BitVec.toNat_ofNat, Nat.mod_eq_of_lt (show i < 2 ^ 32 by omega),
    Nat.mod_eq_of_lt h]

/-- Two bytes of objects that do not wrap around have one address only if they are at one
place. -/
theorem address_eq_iff {dest src : Word} {i j : ℕ} (hi : src.toNat + i < 2 ^ 32)
    (hj : dest.toNat + j < 2 ^ 32) :
    start.address segment src i = start.address segment dest j ↔
      src.toNat + i = dest.toNat + j := by
  unfold Machine.address
  rw [BitVec.add_right_inj, ← BitVec.toNat_inj, toNat_add_ofNat hi, toNat_add_ofNat hj]

theorem apart_of_disjoint {dest src : Word} (hdest : dest.toNat + n ≤ 2 ^ 32)
    (hsrc : src.toNat + n ≤ 2 ^ 32)
    (h : dest.toNat + n ≤ src.toNat ∨ src.toNat + n ≤ dest.toNat) :
    Apart segment start dest src n := by
  intro i hi j hj heq
  rw [address_eq_iff (by omega) (by omega)] at heq
  omega

theorem memset_ends (segment : BitVec 16 → Word) (m : Machine) (s c n : Word) :
    Ends segment memset_asm (memset m s c n)
      (Overwrites segment m s (fun _ => c.setWidth 8) n.toNat) := by
  have hn : n.toNat ≤ 2 ^ 32 := n.isLt.le
  have hstart : Filling segment (memset m s c n) s c 0 (memset m s c n) :=
    ⟨.zero rfl rfl rfl, rfl⟩
  refine ((memset_loop s c hn).ends hstart rfl rfl).mono fun m' hm' => ?_
  exact overwrites_written hn hm'.1.mem

theorem memcpy_ends {dest src n : Word} (h : Apart segment m dest src n.toNat) :
    Ends segment memcpy_asm (memcpy m dest src n)
      (Overwrites segment m dest (fun i => m.mem (m.address segment src i)) n.toNat) := by
  have hn : n.toNat ≤ 2 ^ 32 := n.isLt.le
  have hstart : Copying segment (memcpy m dest src n) dest src 0 (memcpy m dest src n) :=
    ⟨.zero rfl rfl rfl, (BitVec.add_zero src).symm⟩
  have hloop : AlignedLoop segment memcpy_asm 18 19 n.toNat
      (Copying segment (memcpy m dest src n) dest src) := memcpy_loop dest src hn h
  refine (hloop.ends hstart rfl rfl).mono fun m' hm' => ?_
  exact overwrites_written hn hm'.1.mem

/-- Whatever the alignment and the size, the assembly gets to its end having stored exactly
the bytes the byte loop would have. -/
theorem memset_memcpy_exact (segment : BitVec 16 → Word) (m : Machine) (dest n : Word)
    (hdest : dest.toNat + n.toNat ≤ 2 ^ 32) :
    (∀ c, Ends segment memset_asm (memset m dest c n)
      (Overwrites segment m dest (fun _ => c.setWidth 8) n.toNat)) ∧
    ∀ src, src.toNat + n.toNat ≤ 2 ^ 32 →
      dest.toNat + n.toNat ≤ src.toNat ∨ src.toNat + n.toNat ≤ dest.toNat →
      Ends segment memcpy_asm (memcpy m dest src n)
        (Overwrites segment m dest (fun i => m.mem (m.address segment src i)) n.toNat) := by
  refine ⟨fun c => memset_ends segment m dest c n, fun src hsrc hdisj => ?_⟩
  exact memcpy_ends (apart_of_disjoint hdest hsrc hdisj)

/-- Memory with the byte `i % 256` at address `i`, flat segments. -/
def countingMachine : Machine where
  pc := 0
  eax := 0
  ecx := 0
  edx := 0
  esi := 0
  edi := 0
  ds := 0x18
  es := 0
  zf := false
  cf := false
  df := false
  mem a := a.setWidth 8

theorem memset_memcpy_exact_sample :
    (∀ c, Ends (fun _ => 0) memset_asm (memset countingMachine 0x203 c 10)
      (Overwrites (fun _ => 0) countingMachine 0x203 (fun _ => c.setWidth 8) 10)) ∧
    Ends (fun _ => 0) memcpy_asm (memcpy countingMachine 0x203 0x100 10)
      (Overwrites (fun _ => 0) countingMachine 0x203
        (fun i => countingMachine.mem (countingMachine.address (fun _ => 0) 0x100 i)) 10) := by
  have h := memset_memcpy_exact (fun _ => 0) countingMachine 0x203 10 (by decide)
  exact ⟨h.1, h.2 0x100 (by decide) (by decide)⟩

end Kernel391
