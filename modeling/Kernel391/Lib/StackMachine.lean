import Kernel391.Lib.BitField
import Kernel391.Lib.StringMachine

/-!
# A machine with a stack and traps

The part of a 32-bit x86 that system call stubs and interrupt handlers use: the eight general
registers, the flags, two privilege levels, a stack in memory, calls, gates, and `iret`. The
program text and its jump tables are not written; instructions may have any lengths.

Three things live here:

* `step`, one instruction; where there is no instruction but a routine of another language,
  the routine as a whole, from its first instruction to its return;
* `Holds`, what lies on the stack, with what pushing, popping and other stores do to it;
* `Leads`, total correctness of a piece of assembly wherever it lies, with one rule for
  straight code, one for jumps, one for calls of routines and one for traps.
-/

namespace StackMachine

open StringMachine (Word Byte Memory byteOf byteOf_load32 load32 store32 written
  written_outside toNat_sub_add_of_le)

/-! ## Double words in memory -/

section Memory

variable {mem mem' : Memory} {a b p : Word} {n : ℕ} {v : Word} {l : List Word}

/-- Address `a` is one of the `n` bytes from `p` on. -/
def Within (p : Word) (n : ℕ) (a : Word) : Prop := (a - p).toNat < n

theorem store32_outside (h : ¬ Within p 4 a) : store32 mem p v a = mem a := if_neg h

theorem load32_congr (h : ∀ a, Within p 4 a → mem' a = mem a) : load32 mem' p = load32 mem p := by
  have hbyte : ∀ i < 4, Within p 4 (p + BitVec.ofNat 32 i) := by
    intro i hi
    unfold Within
    rw [StringMachine.toNat_add_sub p (by omega)]
    exact hi
  have h0 := h _ (hbyte 0 (by omega))
  have h1 : mem' (p + 1) = mem (p + 1) := h _ (hbyte 1 (by omega))
  have h2 : mem' (p + 2) = mem (p + 2) := h _ (hbyte 2 (by omega))
  have h3 : mem' (p + 3) = mem (p + 3) := h _ (hbyte 3 (by omega))
  rw [BitVec.add_zero] at h0
  unfold load32
  rw [h0, h1, h2, h3]

/-- A double word is determined by its bytes. -/
theorem eq_of_byteOf {v w : Word} (h : ∀ i < 4, byteOf v i = byteOf w i) : v = w := by
  apply BitVec.eq_of_getLsbD_eq
  intro j hj
  have hbit : ∀ x : Word, x.getLsbD j = (byteOf x (j / 8)).getLsbD (j % 8) := by
    intro x
    unfold byteOf
    rw [BitVec.getLsbD_extractLsb', decide_eq_true (Nat.mod_lt j (by omega)), Bool.true_and,
      Nat.div_add_mod]
  rw [hbit, hbit, h _ (by omega)]

theorem load32_store32 : load32 (store32 mem p v) p = v := by
  apply eq_of_byteOf
  intro i hi
  rw [byteOf_load32 _ _ hi]
  exact StringMachine.written_add (by omega) hi

/-- The double words from `p` on are those of `l`. -/
def Holds (mem : Memory) : Word → List Word → Prop
  | _, [] => True
  | p, v :: l => load32 mem p = v ∧ Holds mem (p + 4) l

theorem within_tail (h : Within (p + 4) n a) (hn : n + 4 ≤ 2 ^ 32) : Within p (n + 4) a := by
  unfold Within at h ⊢
  have ha := a.isLt
  have hp := p.isLt
  rw [BitVec.toNat_sub, BitVec.toNat_add] at h
  rw [BitVec.toNat_sub]
  have h4 : (4 : Word).toNat = 4 := rfl
  rw [h4] at h
  omega

/-- What a list of double words holds depends on its bytes only. -/
theorem Holds.congr (h : Holds mem p l) (hlen : 4 * l.length ≤ 2 ^ 32)
    (heq : ∀ a, Within p (4 * l.length) a → mem' a = mem a) : Holds mem' p l := by
  induction l generalizing p with
  | nil => trivial
  | cons v l ih =>
    rw [List.length_cons] at hlen heq
    obtain ⟨hv, hl⟩ := h
    refine ⟨?_, ih hl (by omega) fun a ha => heq a ?_⟩
    · rw [load32_congr fun a ha => heq a (Nat.lt_of_lt_of_le ha (by omega))]
      exact hv
    · exact within_tail ha (by omega)

/-- Storing a double word below the list puts it in front. -/
theorem Holds.push (h : Holds mem p l) (hlen : 4 * l.length + 4 ≤ 2 ^ 32) (v : Word) :
    Holds (store32 mem (p - 4) v) (p - 4) (v :: l) := by
  have hnext : p - 4 + 4 = p := BitVec.sub_add_cancel p 4
  refine ⟨load32_store32, ?_⟩
  rw [hnext]
  refine h.congr (by omega) fun a ha => store32_outside ?_
  have hp := p.isLt
  have hlt := a.isLt
  have h4 : (4 : Word).toNat = 4 := rfl
  unfold Within at ha ⊢
  rw [BitVec.toNat_sub] at ha ⊢
  rw [BitVec.toNat_sub, h4]
  omega

/-- Address `a` is one of the `n` bytes below `p`. -/
def Below (p : Word) (n : ℕ) (a : Word) : Prop := Within (p - BitVec.ofNat 32 n) n a

theorem Below.mono {k : ℕ} (h : Below p k a) (hk : k ≤ n) (hn : n < 2 ^ 32) : Below p n a := by
  unfold Below Within at h ⊢
  have ha := a.isLt
  have hp := p.isLt
  rw [BitVec.toNat_sub, BitVec.toNat_sub, BitVec.toNat_ofNat] at h ⊢
  rw [Nat.mod_eq_of_lt (show k < 2 ^ 32 by omega)] at h
  rw [Nat.mod_eq_of_lt hn]
  omega

end Memory

/-! ## The machine -/

/-- The general registers, in the order of `pushal`. -/
inductive Reg
  | eax | ecx | edx | ebx | esp | ebp | esi | edi
deriving DecidableEq, Repr

/-- The selectors and the stack that the task state segment keeps for the kernel are part of
the machine. -/
structure Machine where
  reg : Reg → Word
  eflags : Word
  cs : BitVec 16
  ss : BitVec 16
  mem : Memory
  ss0 : BitVec 16
  esp0 : Word

/-- The address of the next instruction, and the machine. -/
abbrev Config := Word × Machine

namespace Machine

def setReg (m : Machine) (r : Reg) (v : Word) : Machine :=
  { m with reg := Function.update m.reg r v }

/-- The double word on top of the stack. -/
def top (m : Machine) : Word := load32 m.mem (m.reg .esp)

def push (m : Machine) (v : Word) : Machine :=
  { m with
    reg := Function.update m.reg .esp (m.reg .esp - 4)
    mem := store32 m.mem (m.reg .esp - 4) v }

def drop (m : Machine) : Machine := m.setReg .esp (m.reg .esp + 4)

def pop (m : Machine) (r : Reg) : Machine := m.drop.setReg r m.top

def pushal (m : Machine) : Machine :=
  (((((((m.push (m.reg .eax)).push (m.reg .ecx)).push (m.reg .edx)).push (m.reg .ebx)).push
    (m.reg .esp)).push (m.reg .ebp)).push (m.reg .esi)).push (m.reg .edi)

/-- All registers but the stack pointer, whose value is skipped. -/
def popal (m : Machine) : Machine :=
  (((((((m.pop .edi).pop .esi).pop .ebp).drop).pop .ebx).pop .edx).pop .ecx).pop .eax

/-- The privilege level: 0 in the kernel, 3 in a program. -/
def cpl (m : Machine) : ℕ := (m.cs &&& 3).toNat

end Machine

/-! ## Flags -/

namespace Flag

def carry : BitField := ⟨0, 1⟩
def parity : BitField := ⟨2, 1⟩
def adjust : BitField := ⟨4, 1⟩
def zero : BitField := ⟨6, 1⟩
def sign : BitField := ⟨7, 1⟩
def trap : BitField := ⟨8, 1⟩
def intf : BitField := ⟨9, 1⟩
def overflow : BitField := ⟨11, 1⟩
def nested : BitField := ⟨14, 1⟩

end Flag

/-- Assign flags, one after the other. -/
def setFlags (eflags : Word) (flags : List (BitField × Bool)) : Word :=
  flags.foldl (fun f p => p.1.set f p.2.toNat) eflags

/-- The low byte has an even number of ones. -/
def evenParity (v : Word) : Bool := ((List.range 8).countP v.getLsbD) % 2 == 0

/-- Flags of the difference `dst - src`. -/
def subFlags (src dst eflags : Word) : Word :=
  let d := dst - src
  setFlags eflags [(Flag.carry, decide (dst < src)), (Flag.parity, evenParity d),
    (Flag.adjust, decide (dst &&& 15 < src &&& 15)), (Flag.zero, d == 0), (Flag.sign, d.msb),
    (Flag.overflow, dst.ssubOverflow src)]

/-- Flags of the sum `dst + src`. -/
def addFlags (src dst eflags : Word) : Word :=
  let d := dst + src
  setFlags eflags [(Flag.carry, decide (d < dst)), (Flag.parity, evenParity d),
    (Flag.adjust, decide (15 < (dst &&& 15) + (src &&& 15))), (Flag.zero, d == 0),
    (Flag.sign, d.msb), (Flag.overflow, dst.saddOverflow src)]

/-- Signed comparison by sign and overflow. -/
theorem msb_bne_ssubOverflow (src dst : Word) :
    ((dst - src).msb != dst.ssubOverflow src) = dst.slt src := by
  have hd := dst.toInt_lt
  have hd' := dst.le_toInt
  have hs := src.toInt_lt
  have hs' := src.le_toInt
  have hslt : dst.slt src = decide (dst.toInt - src.toInt < 0) := by
    rw [BitVec.slt_eq_decide, decide_eq_decide]
    omega
  rw [hslt, BitVec.msb_eq_toInt, BitVec.toInt_sub, BitVec.ssubOverflow]
  generalize hdiff : dst.toInt - src.toInt = d
  have hlo : -2 ^ 32 < d := by omega
  have hhi : d < 2 ^ 32 := by omega
  clear hdiff hslt hd hd' hs hs'
  -- the difference leaves the range upwards, downwards, or not at all
  by_cases hhigh : 2 ^ 31 ≤ d
  · have hb : d.bmod (2 ^ 32) = d - 2 ^ 32 := by
      rw [Int.bmod_def]
      split_ifs <;> omega
    have h0 : d - 2 ^ 32 < 0 := by omega
    have h1 : ¬ d < 0 := by omega
    rw [hb, decide_eq_true h0, decide_eq_false h1, decide_eq_true hhigh]
    rfl
  · by_cases hlow : d < -2 ^ 31
    · have hb : d.bmod (2 ^ 32) = d + 2 ^ 32 := by
        rw [Int.bmod_def]
        split_ifs <;> omega
      have h0 : ¬ d + 2 ^ 32 < 0 := by omega
      have h1 : d < 0 := by omega
      rw [hb, decide_eq_false h0, decide_eq_true h1, decide_eq_false hhigh, decide_eq_true hlow]
      rfl
    · have hb : d.bmod (2 ^ 32) = d := by
        rw [Int.bmod_def]
        split_ifs <;> omega
      rw [hb, decide_eq_false hhigh, decide_eq_false hlow]
      exact Bool.xor_false _

theorem intf_subFlags (src dst eflags : Word) :
    Flag.intf.get (subFlags src dst eflags) = Flag.intf.get eflags := by
  unfold subFlags setFlags
  dsimp only [List.foldl]
  rw [BitField.get_set_of_disjoint _ _ _ _ (by decide),
    BitField.get_set_of_disjoint _ _ _ _ (by decide),
    BitField.get_set_of_disjoint _ _ _ _ (by decide),
    BitField.get_set_of_disjoint _ _ _ _ (by decide),
    BitField.get_set_of_disjoint _ _ _ _ (by decide),
    BitField.get_set_of_disjoint _ _ _ _ (by decide)]

theorem zero_subFlags (src dst eflags : Word) :
    Flag.zero.get (subFlags src dst eflags) = (dst == src).toNat := by
  have hsub : (dst - src == 0) = (dst == src) := by
    rw [Bool.eq_iff_iff, beq_iff_eq, beq_iff_eq]
    exact sub_eq_zero
  unfold subFlags setFlags
  dsimp only [List.foldl]
  rw [BitField.get_set_of_disjoint _ _ _ _ (by decide),
    BitField.get_set_of_disjoint _ _ _ _ (by decide), BitField.get_set_self _ _ _ (by decide), hsub]
  cases dst == src <;> rfl

theorem less_subFlags (src dst eflags : Word) :
    (Flag.sign.get (subFlags src dst eflags) != Flag.overflow.get (subFlags src dst eflags)) =
      dst.slt src := by
  rw [← msb_bne_ssubOverflow]
  unfold subFlags setFlags
  dsimp only [List.foldl]
  rw [BitField.get_set_of_disjoint _ _ _ _ (by decide), BitField.get_set_self _ _ _ (by decide),
    BitField.get_set_self _ _ _ (by decide)]
  cases (dst - src).msb <;> cases dst.ssubOverflow src <;> rfl

theorem slt_eq_not (src dst : Word) :
    ((dst == src).toNat == 0 && !dst.slt src) = src.slt dst := by
  rw [BitVec.slt_eq_decide, BitVec.slt_eq_decide]
  by_cases heq : dst = src
  · rw [heq, beq_self_eq_true, decide_eq_false (lt_irrefl _)]
    rfl
  · have hint : dst.toInt ≠ src.toInt := fun h => heq (BitVec.eq_of_toInt_eq h)
    rw [beq_false_of_ne heq]
    by_cases hlt : dst.toInt < src.toInt
    · rw [decide_eq_true hlt, decide_eq_false (by omega)]
      rfl
    · rw [decide_eq_false hlt, decide_eq_true (by omega)]
      rfl

theorem greater_subFlags (src dst eflags : Word) :
    (Flag.zero.get (subFlags src dst eflags) == 0 &&
      Flag.sign.get (subFlags src dst eflags) == Flag.overflow.get (subFlags src dst eflags)) =
      src.slt dst := by
  have hsign : (Flag.sign.get (subFlags src dst eflags) ==
      Flag.overflow.get (subFlags src dst eflags)) = !dst.slt src := by
    rw [← less_subFlags src dst eflags]
    exact (Bool.not_not _).symm
  rw [zero_subFlags, hsign, slt_eq_not]

/-! ## Instructions -/

inductive Operand (ℓ : Type)
  | imm (v : Word)
  | reg (r : Reg)
  /-- Memory at a constant distance from a register. -/
  | disp (d : Word) (base : Reg)
  /-- A variable. -/
  | var (l : ℓ)
deriving DecidableEq, Repr

/-- Instructions, and labels `ℓ` in front of them; `call_table` is a call through entry `index`
of a jump table. -/
inductive Instr (ℓ : Type)
  | label (l : ℓ)
  | pushl (src : Operand ℓ)
  | popl (dst : Reg)
  | movl (src dst : Operand ℓ)
  | cmpl (src : Operand ℓ) (dst : Reg)
  | addl (src : Operand ℓ) (dst : Reg)
  | notl (dst : Reg)
  | pushal
  | popal
  | pushfl
  | popfl
  | cli
  | jmp (l : ℓ)
  | jl (l : ℓ)
  | je (l : ℓ)
  | jg (l : ℓ)
  | call_table (table : ℓ) (index : Reg)
  | int (vec : ℕ)
  | ret
  | iret
deriving DecidableEq, Repr

/-- An entry of the interrupt descriptor table. -/
structure Gate where
  offset : Word
  selector : BitVec 16
  dpl : ℕ
  /-- A trap gate leaves the interrupt flag alone, an interrupt gate clears it. -/
  trap : Bool
deriving DecidableEq

/-- What lies at an address of the program text: an instruction with its length, or a routine,
with what it has done when it is back and the address it has come back to. -/
inductive Code (ℓ : Type)
  | instr (i : Instr ℓ) (length : Word)
  | routine (f : Machine → Config)

/-- A linked program. -/
structure Text (ℓ : Type) where
  sym : ℓ → Word
  code : Word → Option (Code ℓ)
  /-- The entries of the jump tables. -/
  table : ℓ → Word → Word
  gate : ℕ → Option Gate

/-- The flags behind a gate. -/
def gateFlags (trap : Bool) (eflags : Word) : Word :=
  let f := setFlags eflags [(Flag.trap, false), (Flag.nested, false)]
  if trap then f else setFlags f [(Flag.intf, false)]

namespace Machine

/-- Through a gate into the kernel, to come back to `back`. From a program this switches to the
kernel's stack. -/
def enter (g : Gate) (back : Word) (m : Machine) : Config :=
  let onStack :=
    if m.cpl = 0 then m
    else (({ m with ss := m.ss0 }.setReg .esp m.esp0).push (m.ss.setWidth 32)).push (m.reg .esp)
  let pushed := ((onStack.push m.eflags).push (m.cs.setWidth 32)).push back
  (g.offset, { pushed with cs := g.selector, eflags := gateFlags g.trap m.eflags })

/-- Back to where a gate was entered from; a program gets its own stack back. -/
def iret (m : Machine) : Option Config :=
  let cs := m.drop.top.setWidth 16
  let back := { m.drop.drop.drop with cs := cs, eflags := m.drop.drop.top }
  if back.cpl < m.cpl then none
  else if back.cpl = m.cpl then some (m.top, back)
  else
    let ss := back.drop.top.setWidth 16
    some (m.top, { back with ss := ss }.setReg .esp back.top)

end Machine

section Execution

variable {ℓ : Type} (t : Text ℓ)

def value (m : Machine) : Operand ℓ → Word
  | .imm v => v
  | .reg r => m.reg r
  | .disp d base => load32 m.mem (m.reg base + d)
  | .var l => load32 m.mem (t.sym l)

/-- Assign an operand; a constant is none that can be assigned. -/
def assign (m : Machine) (v : Word) : Operand ℓ → Machine
  | .imm _ => m
  | .reg r => m.setReg r v
  | .disp d base => { m with mem := store32 m.mem (m.reg base + d) v }
  | .var l => { m with mem := store32 m.mem (t.sym l) v }

/-- What an instruction does that the next one follows. -/
def effect (m : Machine) : Instr ℓ → Option Machine
  | .label _ => some m
  | .pushl src => some (m.push (value t m src))
  | .popl dst => some (m.pop dst)
  | .movl src dst => some (assign t m (value t m src) dst)
  | .cmpl src dst => some { m with eflags := subFlags (value t m src) (m.reg dst) m.eflags }
  | .addl src dst =>
    some { m.setReg dst (m.reg dst + value t m src) with
      eflags := addFlags (value t m src) (m.reg dst) m.eflags }
  | .notl dst => some (m.setReg dst (~~~ m.reg dst))
  | .pushal => some m.pushal
  | .popal => some m.popal
  | .pushfl => some (m.push m.eflags)
  | .popfl => some { m.drop with eflags := m.top }
  | .cli => some { m with eflags := setFlags m.eflags [(Flag.intf, false)] }
  | _ => none

/-- Where a jump leads, and whether it is taken. -/
def jump (m : Machine) : Instr ℓ → Option (ℓ × Bool)
  | .jmp l => some (l, true)
  | .jl l => some (l, Flag.sign.get m.eflags != Flag.overflow.get m.eflags)
  | .je l => some (l, Flag.zero.get m.eflags == 1)
  | .jg l => some (l, Flag.zero.get m.eflags == 0 &&
      Flag.sign.get m.eflags == Flag.overflow.get m.eflags)
  | _ => none

/-- A trap that a program asks for needs a gate that is open to it. -/
def trap (vec : ℕ) (back : Word) (m : Machine) : Option Config :=
  match t.gate vec with
  | some g => if m.cpl ≤ g.dpl then some (m.enter g back) else none
  | none => none

/-- An interrupt of a device needs a gate only. -/
def interrupt (vec : ℕ) (c : Config) : Option Config := (t.gate vec).map fun g => c.2.enter g c.1

def exec (next : Word) (m : Machine) (i : Instr ℓ) : Option Config :=
  match i with
  | .call_table table index => some (t.table table (m.reg index), m.push next)
  | .int vec => trap t vec next m
  | .ret => some (m.top, m.drop)
  | .iret => m.iret
  | i =>
    match jump m i with
    | some (l, taken) => some (if taken then t.sym l else next, m)
    | none => (effect t m i).map fun m => (next, m)

/-- One instruction, or one routine. There is no step where nothing lies, nor at a fault. -/
def step (c : Config) : Option Config :=
  match t.code c.1 with
  | some (.instr i length) => exec t (c.1 + length) c.2 i
  | some (.routine f) => some (f c.2)
  | none => none

def run : ℕ → Config → Option Config
  | 0, c => some c
  | n + 1, c => (step t c).bind (run n)

/-- The program gets to `c'`. -/
def Reaches (c c' : Config) : Prop := ∃ n, run t n c = some c'

end Execution

/-- After a comparison of register `r` with `src`. -/
def Machine.compared (m : Machine) (src : Word) (r : Reg) : Machine :=
  { m with eflags := subFlags src (m.reg r) m.eflags }

/-! What a conditional jump makes of a comparison. -/

section Compared

variable {ℓ : Type} (m : Machine) (src : Word) (r : Reg) (l : ℓ)

theorem jump_jl : jump (m.compared src r) (.jl l) = some (l, (m.reg r).slt src) := by
  unfold jump Machine.compared
  rw [less_subFlags]

theorem jump_je : jump (m.compared src r) (.je l) = some (l, m.reg r == src) := by
  unfold jump Machine.compared
  rw [zero_subFlags]
  cases m.reg r == src <;> rfl

theorem jump_jg : jump (m.compared src r) (.jg l) = some (l, src.slt (m.reg r)) := by
  unfold jump Machine.compared
  rw [greater_subFlags]

end Compared

/-! ## Pieces of assembly -/

section Rules

variable {ℓ : Type} {t : Text ℓ} {a : Word} {m m' : Machine}
variable {i : Instr ℓ} {is is' : List (Instr ℓ)} {c c' c'' : Config} {Q : Config → Prop}

theorem Reaches.refl (c : Config) : Reaches t c c := ⟨0, rfl⟩

theorem run_add (n k : ℕ) (c : Config) : run t (n + k) c = (run t n c).bind (run t k) := by
  induction n generalizing c with
  | zero => rw [Nat.zero_add, run, Option.bind_some]
  | succ n ih =>
    rw [show n + 1 + k = (n + k) + 1 by omega, run, run]
    cases step t c with
    | none => rfl
    | some c₁ => exact ih c₁

theorem Reaches.trans (h : Reaches t c c') (h' : Reaches t c' c'') : Reaches t c c'' := by
  obtain ⟨n, hn⟩ := h
  obtain ⟨k, hk⟩ := h'
  exact ⟨n + k, by rw [run_add, hn]; exact hk⟩

theorem Reaches.of_step (h : step t c = some c') : Reaches t c c' :=
  ⟨1, by rw [run, h]; rfl⟩

/-- A routine runs to its return. -/
theorem Reaches.routine {f : Machine → Config} (h : t.code a = some (.routine f)) :
    Reaches t (a, m) (f m) :=
  .of_step (by rw [step, h])

/-- The instructions lie at `a`, one behind the other, and the labels name their places. -/
def Assembled (t : Text ℓ) : Word → List (Instr ℓ) → Prop
  | _, [] => True
  | a, .label l :: is => t.sym l = a ∧ Assembled t a is
  | a, i :: is => ∃ n, t.code a = some (.instr i n) ∧ Assembled t (a + n) is

/-- What follows a label. -/
def behind [DecidableEq ℓ] (l : ℓ) : List (Instr ℓ) → List (Instr ℓ)
  | [] => []
  | i :: is => if i = .label l then is else behind l is

def Instr.isLabel : Instr ℓ → Bool
  | .label _ => true
  | _ => false

theorem assembled_cons (hi : i.isLabel = false) :
    Assembled t a (i :: is) ↔ ∃ n, t.code a = some (.instr i n) ∧ Assembled t (a + n) is := by
  cases i <;> first | exact Iff.rfl | cases hi

/-- A label leads to the code behind it. -/
theorem Assembled.behind [DecidableEq ℓ] {l : ℓ} (h : Assembled t a is) (hl : .label l ∈ is) :
    Assembled t (t.sym l) (behind l is) := by
  induction is generalizing a with
  | nil => cases hl
  | cons i is ih =>
    unfold StackMachine.behind
    by_cases hi : i = .label l
    · subst hi
      rw [if_pos rfl]
      obtain ⟨ha, his⟩ := h
      rw [ha]
      exact his
    · rw [if_neg hi]
      have hrest : .label l ∈ is := by
        rcases List.mem_cons.mp hl with heq | hrest
        · exact absurd heq.symm hi
        · exact hrest
      cases hlabel : i.isLabel with
      | false =>
        obtain ⟨n, -, his⟩ := (assembled_cons hlabel).mp h
        exact ih his hrest
      | true =>
        cases i with
        | label l' => exact ih h.2 hrest
        | _ => cases hlabel

/-- The place of a label, with one address for each instruction. -/
def place [DecidableEq ℓ] (l : ℓ) : List (Instr ℓ) → ℕ
  | [] => 0
  | i :: is => if i = .label l then 0 else place l is + if i.isLabel then 0 else 1

/-- Instructions without their labels. -/
def unlabelled (is : List (Instr ℓ)) : List (Instr ℓ) := is.filter (!·.isLabel)

/-- Any list of instructions whose labels differ can be assembled. -/
theorem assembled_of_place [DecidableEq ℓ] (hsym : ∀ l, .label l ∈ is →
    t.sym l = a + BitVec.ofNat 32 (place l is)) (hnodup : (is.filter (·.isLabel)).Nodup)
    (hcode : ∀ k i, (unlabelled is)[k]? = some i → t.code (a + BitVec.ofNat 32 k) =
      some (.instr i 1)) : Assembled t a is := by
  induction is generalizing a with
  | nil => trivial
  | cons i is ih =>
    cases hlabel : i.isLabel with
    | true =>
      cases i with
      | label l =>
        rw [List.filter_cons_of_pos hlabel, List.nodup_cons] at hnodup
        have hl := hsym l List.mem_cons_self
        rw [place, if_pos rfl, show BitVec.ofNat 32 0 = 0 from rfl, add_zero] at hl
        refine ⟨hl, ih (fun l' hl' => ?_) hnodup.2 fun k i hk => ?_⟩
        · have hne : (.label l : Instr ℓ) ≠ .label l' := by
            rintro ⟨rfl⟩
            exact hnodup.1 (List.mem_filter.mpr ⟨hl', rfl⟩)
          rw [hsym l' (List.mem_cons_of_mem _ hl'), place, if_neg hne, if_pos hlabel, add_zero]
        · exact hcode k i hk
      | _ => cases hlabel
    | false =>
      have hunlabelled : unlabelled (i :: is) = i :: unlabelled is :=
        List.filter_cons_of_pos (by rw [hlabel]; rfl)
      rw [List.filter_cons_of_neg (by rw [hlabel]; exact Bool.false_ne_true)] at hnodup
      rw [hunlabelled] at hcode
      have hnext : ∀ k, a + BitVec.ofNat 32 (k + 1) = a + 1 + BitVec.ofNat 32 k := by
        intro k
        rw [BitVec.ofNat_add, add_comm (BitVec.ofNat 32 k), ← add_assoc]
        rfl
      have hfirst := hcode 0 i rfl
      rw [show BitVec.ofNat 32 0 = 0 from rfl, add_zero] at hfirst
      refine (assembled_cons hlabel).mpr ⟨1, hfirst, ih (fun l hl => ?_) hnodup fun k i' hk => ?_⟩
      · have hne : i ≠ .label l := by
          rintro rfl
          cases hlabel
        rw [hsym l (List.mem_cons_of_mem _ hl), place, if_neg hne, hlabel,
          if_neg Bool.false_ne_true, hnext]
      · rw [← hnext]
        exact hcode (k + 1) i' hk

/-- Wherever the instructions lie, the program gets from there to a place with `Q`. -/
def Leads (t : Text ℓ) (is : List (Instr ℓ)) (m : Machine) (Q : Config → Prop) : Prop :=
  ∀ a, Assembled t a is → ∃ c, Reaches t (a, m) c ∧ Q c

namespace Leads

theorem label {l : ℓ} (h : Leads t is m Q) : Leads t (.label l :: is) m Q :=
  fun a ha => h a ha.2

/-- An instruction that the next one follows. -/
theorem next (hi : i.isLabel = false) (hexec : ∀ b, exec t b m i = some (b, m'))
    (h : Leads t is m' Q) : Leads t (i :: is) m Q := by
  intro a ha
  obtain ⟨n, hcode, his⟩ := (assembled_cons hi).mp ha
  obtain ⟨c, hc, hQ⟩ := h _ his
  have hstep : step t (a, m) = some (a + n, m') := by
    rw [step, hcode]
    exact hexec _
  exact ⟨c, (Reaches.of_step hstep).trans hc, hQ⟩

/-- One that leads somewhere else, and what happens from there. -/
theorem goto (hi : i.isLabel = false) (hexec : ∀ b, exec t b m i = some c)
    (h : ∃ c', Reaches t c c' ∧ Q c') : Leads t (i :: is) m Q := by
  intro a ha
  obtain ⟨n, hcode, his⟩ := (assembled_cons hi).mp ha
  obtain ⟨c', hc', hQ⟩ := h
  have hstep : step t (a, m) = some c := by
    rw [step, hcode]
    exact hexec _
  exact ⟨c', (Reaches.of_step hstep).trans hc', hQ⟩

theorem exec_jump {l : ℓ} {taken : Bool} (hjump : jump m i = some (l, taken)) (b : Word) :
    i.isLabel = false ∧ exec t b m i = some (if taken then t.sym l else b, m) := by
  cases i with
  | jmp l' | jl l' | je l' | jg l' =>
    rw [exec]
    · rw [hjump]
      exact ⟨rfl, rfl⟩
    all_goals exact nofun
  | _ => cases hjump

/-- A jump that is taken. -/
theorem taken {l : ℓ} (hjump : jump m i = some (l, true)) (hat : Assembled t (t.sym l) is')
    (h : Leads t is' m Q) : Leads t (i :: is) m Q :=
  goto (exec_jump (t := t) hjump 0).1 (fun b => (exec_jump hjump b).2) (h _ hat)

/-- And one that is not. -/
theorem passed {l : ℓ} (hjump : jump m i = some (l, false)) (h : Leads t is m Q) :
    Leads t (i :: is) m Q :=
  next (exec_jump (t := t) hjump 0).1 (fun b => (exec_jump hjump b).2) h

/-! One rule for each instruction that the next one follows. -/

theorem pushl {src : Operand ℓ} (h : Leads t is (m.push (value t m src)) Q) :
    Leads t (.pushl src :: is) m Q := next rfl (fun _ => rfl) h

theorem popl {dst : Reg} (h : Leads t is (m.pop dst) Q) : Leads t (.popl dst :: is) m Q :=
  next rfl (fun _ => rfl) h

theorem movl {src dst : Operand ℓ} (h : Leads t is (assign t m (value t m src) dst) Q) :
    Leads t (.movl src dst :: is) m Q := next rfl (fun _ => rfl) h

/-- Loading a double word whose value is known. -/
theorem load {d v : Word} {base dst : Reg} (hv : load32 m.mem (m.reg base + d) = v)
    (h : Leads t is (m.setReg dst v) Q) : Leads t (.movl (.disp d base) (.reg dst) :: is) m Q := by
  subst hv
  exact movl h

theorem cmpl {src : Operand ℓ} {dst : Reg} (h : Leads t is (m.compared (value t m src) dst) Q) :
    Leads t (.cmpl src dst :: is) m Q := next rfl (fun _ => rfl) h

theorem addl {src : Operand ℓ} {dst : Reg}
    (h : Leads t is { m.setReg dst (m.reg dst + value t m src) with
      eflags := addFlags (value t m src) (m.reg dst) m.eflags } Q) :
    Leads t (.addl src dst :: is) m Q := next rfl (fun _ => rfl) h

theorem notl {dst : Reg} (h : Leads t is (m.setReg dst (~~~ m.reg dst)) Q) :
    Leads t (.notl dst :: is) m Q := next rfl (fun _ => rfl) h

theorem pushal (h : Leads t is m.pushal Q) : Leads t (.pushal :: is) m Q :=
  next rfl (fun _ => rfl) h

theorem popal (h : Leads t is m.popal Q) : Leads t (.popal :: is) m Q :=
  next rfl (fun _ => rfl) h

theorem pushfl (h : Leads t is (m.push m.eflags) Q) : Leads t (.pushfl :: is) m Q :=
  next rfl (fun _ => rfl) h

theorem popfl (h : Leads t is { m.drop with eflags := m.top } Q) :
    Leads t (.popfl :: is) m Q := next rfl (fun _ => rfl) h

/-- A return from a trap. -/
theorem iret {c : Config} (hiret : m.iret = some c) (hQ : Q c) : Leads t (.iret :: is) m Q :=
  goto rfl (fun _ => hiret) ⟨c, .refl c, hQ⟩

/-- And one from a routine. -/
theorem ret (hQ : Q (m.top, m.drop)) : Leads t (.ret :: is) m Q :=
  goto rfl (fun _ => rfl) ⟨_, .refl _, hQ⟩

/-- A call, up to the first instruction of what is called. -/
theorem call {table : ℓ} {index : Reg}
    (h : ∀ b, Assembled t b is → Q (t.table table (m.reg index), m.push b)) :
    Leads t (.call_table table index :: is) m Q := by
  intro a ha
  obtain ⟨n, hinstr, his⟩ := (assembled_cons rfl).mp ha
  have hstep : step t (a, m) = some (t.table table (m.reg index), m.push (a + n)) := by
    rw [step, hinstr]
    rfl
  exact ⟨_, .of_step hstep, h _ his⟩

/-- From there on, if it is a routine that comes back to what follows. -/
theorem routine {f : Machine → Config} {b : Word} (h : Leads t is (f m).2 (· = c))
    (hcode : t.code a = some (.routine f)) (hback : (f m).1 = b) (hb : Assembled t b is) :
    Reaches t (a, m) c := by
  obtain ⟨c', hc', rfl⟩ := h b hb
  refine (Reaches.routine hcode).trans ?_
  rw [show f m = (b, (f m).2) from Prod.ext hback rfl]
  exact hc'

end Leads

end Rules

/-! ## The stack -/

section Stack

variable {m m' : Machine} {r : Reg} {v : Word} {l : List Word}

@[simp] theorem setReg_self (m : Machine) (r : Reg) (v : Word) : (m.setReg r v).reg r = v := by
  simp only [Machine.setReg, Function.update_self]

@[simp] theorem setReg_of_ne {x : Reg} (m : Machine) (v : Word) (h : x ≠ r) :
    (m.setReg r v).reg x = m.reg x := by
  simp only [Machine.setReg, Function.update_of_ne h]

@[simp] theorem push_esp (m : Machine) (v : Word) :
    (m.push v).reg .esp = m.reg .esp - 4 := by
  simp only [Machine.push, Function.update_self]

@[simp] theorem push_reg (m : Machine) (v : Word) (h : r ≠ .esp) :
    (m.push v).reg r = m.reg r := by
  simp only [Machine.push, Function.update_of_ne h]

@[simp] theorem drop_esp (m : Machine) : m.drop.reg .esp = m.reg .esp + 4 := by
  simp only [Machine.drop, Machine.setReg, Function.update_self]

@[simp] theorem drop_reg (m : Machine) (h : r ≠ .esp) : m.drop.reg r = m.reg r := by
  simp only [Machine.drop, Machine.setReg, Function.update_of_ne h]

@[simp] theorem pushal_reg (m : Machine) (h : r ≠ .esp) : m.pushal.reg r = m.reg r := by
  simp only [Machine.pushal, push_reg _ _ h]

/-- The double words on top of the stack are those of `l`. -/
def Machine.Stack (m : Machine) (l : List Word) : Prop := Holds m.mem (m.reg .esp) l

theorem Machine.Stack.top (h : m.Stack (v :: l)) : m.top = v := h.1

theorem top_push (m : Machine) (v : Word) : (m.push v).top = v := by
  unfold Machine.top
  rw [push_esp]
  exact load32_store32

/-- What lay on the stack lies behind what is pushed. -/
theorem Machine.Stack.holds_push (h : m.Stack l) (hlen : 4 * l.length + 4 ≤ 2 ^ 32) (v : Word) :
    Holds (m.push v).mem (m.reg .esp) l := by
  have htail := (Holds.push h hlen v).2
  rw [BitVec.sub_add_cancel] at htail
  exact htail

theorem Machine.Stack.push (h : m.Stack l) (hlen : 4 * l.length + 4 ≤ 2 ^ 32) (v : Word) :
    (m.push v).Stack (v :: l) := by
  unfold Machine.Stack
  rw [push_esp]
  exact Holds.push h hlen v

theorem Machine.Stack.drop (h : m.Stack (v :: l)) : m.drop.Stack l := by
  unfold Machine.Stack
  rw [drop_esp]
  exact h.2

theorem Machine.Stack.congr (h : m.Stack l) (hesp : m'.reg .esp = m.reg .esp)
    (hmem : m'.mem = m.mem) : m'.Stack l := by
  unfold Machine.Stack
  rw [hesp, hmem]
  exact h

@[simp] theorem pop_self (m : Machine) (r : Reg) : (m.pop r).reg r = m.top := by
  simp only [Machine.pop, Machine.setReg, Function.update_self]

@[simp] theorem pop_of_ne {x : Reg} (m : Machine) (h : x ≠ r) :
    (m.pop r).reg x = m.drop.reg x := by
  simp only [Machine.pop, Machine.setReg, Function.update_of_ne h]

theorem Machine.Stack.pop (h : m.Stack (v :: l)) (hr : r ≠ .esp) : (m.pop r).Stack l :=
  h.drop.congr (pop_of_ne m hr.symm) rfl

@[simp] theorem popal_cs (m : Machine) : m.popal.cs = m.cs := rfl

@[simp] theorem popal_ss (m : Machine) : m.popal.ss = m.ss := rfl

@[simp] theorem popal_mem (m : Machine) : m.popal.mem = m.mem := rfl

/-- What `pushal` leaves on the stack. -/
def savedRegs (reg : Reg → Word) : List Word :=
  [reg .edi, reg .esi, reg .ebp, reg .esp, reg .ebx, reg .edx, reg .ecx, reg .eax]

/-- `popal` gets it back, and leaves the stack pointer behind it. -/
theorem Machine.Stack.popal {reg : Reg → Word} (h : m.Stack (savedRegs reg ++ l)) :
    (∀ r, r ≠ .esp → m.popal.reg r = reg r) ∧ m.popal.reg .esp = m.reg .esp + 32 ∧
      m.popal.Stack l := by
  have h1 := h.pop (r := .edi) (by decide)
  have h2 := h1.pop (r := .esi) (by decide)
  have h3 := h2.pop (r := .ebp) (by decide)
  have h4 := h3.drop
  have h5 := h4.pop (r := .ebx) (by decide)
  have h6 := h5.pop (r := .edx) (by decide)
  have h7 := h6.pop (r := .ecx) (by decide)
  have h8 := h7.pop (r := .eax) (by decide)
  refine ⟨fun r hr => ?_, ?_, h8⟩
  · unfold Machine.popal
    cases r with
    | eax => rw [pop_self, h7.top]
    | ecx => simp [h6.top]
    | edx => simp [h5.top]
    | ebx => simp [h4.top]
    | esp => exact absurd rfl hr
    | ebp => simp [h2.top]
    | esi => simp [h1.top]
    | edi => simp [h.top]
  · unfold Machine.popal
    simp only [pop_of_ne, drop_esp, ne_eq, reduceCtorEq, not_false_eq_true, BitVec.add_assoc]
    rfl

end Stack

/-- The stack, which began at `base` in memory `mem₀`, holds `l`; nothing else has changed. -/
structure OnStack (mem₀ : Memory) (base : Word) (l : List Word) (m : Machine) : Prop where
  esp : m.reg .esp = base - BitVec.ofNat 32 (4 * l.length)
  stack : m.Stack l
  outside : ∀ a, ¬ Within (m.reg .esp) (4 * l.length) a → m.mem a = mem₀ a

namespace OnStack

variable {mem₀ : Memory} {base : Word} {l : List Word} {m m' : Machine}

theorem empty (m : Machine) : OnStack m.mem (m.reg .esp) [] m where
  esp := (BitVec.sub_zero _).symm
  stack := trivial
  outside _ _ := rfl

/-- Registers and flags do not matter. -/
theorem congr (h : OnStack mem₀ base l m) (hesp : m'.reg .esp = m.reg .esp)
    (hmem : m'.mem = m.mem) : OnStack mem₀ base l m' := by
  refine ⟨hesp.trans h.esp, h.stack.congr hesp hmem, ?_⟩
  rw [hesp, hmem]
  exact h.outside

theorem push (h : OnStack mem₀ base l m) (hlen : 4 * l.length + 4 ≤ 2 ^ 32) (v : Word) :
    OnStack mem₀ base (v :: l) (m.push v) := by
  refine ⟨?_, ?_, fun a ha => ?_⟩
  · rw [push_esp, h.esp, List.length_cons, Nat.mul_add, BitVec.ofNat_add, sub_sub]
    rfl
  · exact h.stack.push hlen v
  · rw [push_esp, List.length_cons, Nat.mul_add] at ha
    have hback : m.reg .esp - 4 + 4 = m.reg .esp := BitVec.sub_add_cancel _ 4
    have hstore : ¬ Within (m.reg .esp - 4) 4 a := fun hin => ha (Nat.lt_of_lt_of_le hin (by omega))
    refine (store32_outside hstore).trans (h.outside a fun hin => ha ?_)
    rw [← hback] at hin
    exact within_tail hin (by omega)

theorem pushal (h : OnStack mem₀ base l m) (hlen : 4 * l.length + 32 ≤ 2 ^ 32) :
    OnStack mem₀ base (savedRegs m.reg ++ l) m.pushal := by
  have h1 := h.push (by omega) (m.reg .eax)
  have h2 := h1.push (by simp only [List.length_cons]; omega) (m.reg .ecx)
  have h3 := h2.push (by simp only [List.length_cons]; omega) (m.reg .edx)
  have h4 := h3.push (by simp only [List.length_cons]; omega) (m.reg .ebx)
  have h5 := h4.push (by simp only [List.length_cons]; omega) (m.reg .esp)
  have h6 := h5.push (by simp only [List.length_cons]; omega) (m.reg .ebp)
  have h7 := h6.push (by simp only [List.length_cons]; omega) (m.reg .esi)
  exact h7.push (by simp only [List.length_cons]; omega) (m.reg .edi)

end OnStack

/-! ## Into the kernel and back -/

section Traps

variable {m m' : Machine} {back : Word}

/-- Where the stack of a handler begins. -/
def Machine.trapBase (m : Machine) : Word := if m.cpl = 0 then m.reg .esp else m.esp0

/-- What a gate leaves on it. -/
def Machine.trapFrame (m : Machine) (back : Word) : List Word :=
  [back, m.cs.setWidth 32, m.eflags] ++ if m.cpl = 0 then [] else [m.reg .esp, m.ss.setWidth 32]

/-- A handler has been entered through `g`. -/
structure Entered (m : Machine) (g : Gate) (back : Word) (m' : Machine) : Prop where
  stack : OnStack m.mem m.trapBase (m.trapFrame back) m'
  reg : ∀ r, r ≠ .esp → m'.reg r = m.reg r
  cs : m'.cs = g.selector
  eflags : m'.eflags = gateFlags g.trap m.eflags

/-- Where the gate pushes from. -/
def Machine.onKernelStack (m : Machine) : Machine :=
  if m.cpl = 0 then m
  else (({ m with ss := m.ss0 }.setReg .esp m.esp0).push (m.ss.setWidth 32)).push (m.reg .esp)

theorem onStack_onKernelStack (m : Machine) :
    OnStack m.mem m.trapBase (if m.cpl = 0 then [] else [m.reg .esp, m.ss.setWidth 32])
      m.onKernelStack := by
  unfold Machine.trapBase Machine.onKernelStack
  by_cases hcpl : m.cpl = 0
  · rw [if_pos hcpl, if_pos hcpl, if_pos hcpl]
    exact .empty m
  · rw [if_neg hcpl, if_neg hcpl, if_neg hcpl]
    have hesp : ({ m with ss := m.ss0 }.setReg .esp m.esp0).reg .esp = m.esp0 :=
      by simp only [Machine.setReg, Function.update_self]
    have hempty := OnStack.empty ({ m with ss := m.ss0 }.setReg .esp m.esp0)
    rw [hesp] at hempty
    exact (hempty.push (by simp) _).push (by simp) _

theorem onKernelStack_reg {r : Reg} (h : r ≠ .esp) : m.onKernelStack.reg r = m.reg r := by
  unfold Machine.onKernelStack
  by_cases hcpl : m.cpl = 0
  · rw [if_pos hcpl]
  · rw [if_neg hcpl, push_reg _ _ h, push_reg _ _ h]
    exact Function.update_of_ne h ..

theorem entered_enter (m : Machine) (g : Gate) (back : Word) :
    Entered m g back (m.enter g back).2 := by
  have hlen : (if m.cpl = 0 then [] else [m.reg .esp, m.ss.setWidth 32]).length ≤ 2 := by
    split_ifs <;> simp
  have h1 := (onStack_onKernelStack m).push (by omega) m.eflags
  have h2 := h1.push (by rw [List.length_cons]; omega) (m.cs.setWidth 32)
  have h3 := h2.push (by rw [List.length_cons, List.length_cons]; omega) back
  refine ⟨h3.congr rfl rfl, fun r hr => ?_, rfl, rfl⟩
  have hreg : (m.enter g back).2.reg =
      (((m.onKernelStack.push m.eflags).push (m.cs.setWidth 32)).push back).reg := rfl
  rw [hreg, push_reg _ _ hr, push_reg _ _ hr, push_reg _ _ hr, onKernelStack_reg hr]

/-- The program, or the kernel, where the handler leaves it. -/
def Machine.resumed (m m' : Machine) : Machine :=
  { m' with
    reg := Function.update m'.reg .esp (m.reg .esp)
    eflags := m.eflags
    cs := m.cs
    ss := if m.cpl = 0 then m'.ss else m.ss }

theorem setWidth_setWidth (x : BitVec 16) : (x.setWidth 32).setWidth 16 = x := by
  rw [BitVec.setWidth_setWidth_of_le _ (by decide), BitVec.setWidth_eq]

theorem iret_trapFrame (hkernel : m'.cpl = 0) (hstack : m'.Stack (m.trapFrame back))
    (hesp : m'.reg .esp = m.trapBase - BitVec.ofNat 32 (4 * (m.trapFrame back).length)) :
    m'.iret = some (back, m.resumed m') := by
  have h1 := hstack.drop
  have h2 := h1.drop
  have h3 := h2.drop
  have hcs : m'.drop.top.setWidth 16 = m.cs := by rw [h1.top, setWidth_setWidth]
  have hflags : m'.drop.drop.top = m.eflags := h2.top
  have hcpl : ∀ x : Machine, { x with cs := m.cs, eflags := m.eflags }.cpl = m.cpl := fun _ => rfl
  unfold Machine.iret
  dsimp only
  rw [hstack.top, hcs, hflags, hcpl, hkernel, if_neg (Nat.not_lt_zero _)]
  unfold Machine.trapFrame Machine.trapBase at hesp
  unfold Machine.resumed
  by_cases h0 : m.cpl = 0
  · rw [if_pos h0, if_pos h0] at hesp
    have hback : m'.drop.drop.drop.reg = Function.update m'.reg .esp (m.reg .esp) := by
      funext r
      by_cases hr : r = .esp
      · rw [hr, Function.update_self, drop_esp, drop_esp, drop_esp, hesp,
          BitVec.add_assoc, BitVec.add_assoc]
        exact BitVec.sub_add_cancel _ 12
      · rw [Function.update_of_ne hr, drop_reg _ hr, drop_reg _ hr, drop_reg _ hr]
    rw [if_pos h0, if_pos h0, ← hback]
    rfl
  · rw [if_neg h0] at h3
    have hesp' : { m'.drop.drop.drop with cs := m.cs, eflags := m.eflags }.top = m.reg .esp :=
      h3.top
    have hss : { m'.drop.drop.drop with cs := m.cs, eflags := m.eflags }.drop.top =
        m.ss.setWidth 32 := h3.drop.top
    have hreg : Function.update m'.drop.drop.drop.reg .esp (m.reg .esp) =
        Function.update m'.reg .esp (m.reg .esp) := by
      funext r
      by_cases hr : r = .esp
      · rw [hr, Function.update_self, Function.update_self]
      · rw [Function.update_of_ne hr, Function.update_of_ne hr, drop_reg _ hr, drop_reg _ hr,
          drop_reg _ hr]
    rw [if_neg h0, if_neg h0, hesp', hss, setWidth_setWidth, ← hreg]
    rfl

end Traps

end StackMachine
