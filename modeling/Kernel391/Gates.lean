import Kernel391.Dispatcher
import Kernel391.Lib.StackMachine

/-!
# The interrupt descriptor table (`x86_desc.h`, `idt_init.c`)

The table as the processor reads it, and what `initialize_IDT` makes of any earlier contents:
256 gates into the kernel's code segment, all present; only gate 0x80 is open to programs, and
31 of the others lead to a handler.
-/

namespace Kernel391

open StackMachine

/-! ## Descriptors -/

namespace IdtDesc

def offset_15_00 : BitField := ⟨0, 16⟩
def seg_selector : BitField := ⟨16, 16⟩
def reserved4 : BitField := ⟨32, 8⟩
def reserved3 : BitField := ⟨40, 1⟩
def reserved2 : BitField := ⟨41, 1⟩
def reserved1 : BitField := ⟨42, 1⟩
def size : BitField := ⟨43, 1⟩
def reserved0 : BitField := ⟨44, 1⟩
def dpl : BitField := ⟨45, 2⟩
def present : BitField := ⟨47, 1⟩
def offset_31_16 : BitField := ⟨48, 16⟩

end IdtDesc

/-- `idt_desc_t`. -/
abbrev IdtEntry := BitVec 64

def NUM_VEC : ℕ := 256
def KERNEL_CS : ℕ := 0x10
def USER_CS : ℕ := 0x23

/-- Assign fields of an entry one after the other. -/
def IdtEntry.assign (x : IdtEntry) (fields : List (BitField × ℕ)) : IdtEntry :=
  fields.foldl (fun x p => p.1.set x p.2) x

def SET_IDT_ENTRY (handler : StringMachine.Word) (x : IdtEntry) : IdtEntry :=
  x.assign [(IdtDesc.offset_31_16, ((handler &&& 0xFFFF0000) >>> 16).toNat),
    (IdtDesc.offset_15_00, (handler &&& 0xFFFF).toNat)]

/-- An entry as the processor reads it: a present gate of 32 bits, for interrupts or traps. -/
def gateOf (x : IdtEntry) : Option Gate :=
  if IdtDesc.present.get x = 1 ∧ IdtDesc.reserved0.get x = 0 ∧ IdtDesc.size.get x = 1 ∧
      IdtDesc.reserved1.get x = 1 ∧ IdtDesc.reserved2.get x = 1 then
    some {
      offset := BitVec.ofNat 16 (IdtDesc.offset_31_16.get x) ++
        BitVec.ofNat 16 (IdtDesc.offset_15_00.get x)
      selector := BitVec.ofNat 16 (IdtDesc.seg_selector.get x)
      dpl := IdtDesc.dpl.get x
      trap := IdtDesc.reserved3.get x == 1 }
  else none

/-! ## The table -/

/-- The names that `interrupt_handler.S` and its callers give to places in the program. -/
inductive Label
  /-- `EXCEPTION_n`. -/
  | EXCEPTION (n : ℕ)
  | RTC_handler
  | KB_handler
  | PIT_handler
  | syscall
  | interrupt_handler
  | interrupt
  | handle
  | syscall_jump_sub
  | invalid_sysnum
  | finish_syscall
  | syscall_jumptable
  | int_jumptable
  | ret_val
  /-- `exception_n`. -/
  | exception (n : ℕ)
  | pit_interrupt_handler
  | keyboard_interrupt_handler
  | rtc_interrupt_handler
  /-- The handler of a system call, by its number. -/
  | func (number : ℕ)
  /-- The library's wrapper for it. -/
  | wrapper (number : ℕ)
deriving DecidableEq, Repr

/-- The loop of `initialize_IDT`. -/
def initEntry (i : ℕ) (x : IdtEntry) : IdtEntry :=
  let x := x.assign [(IdtDesc.seg_selector, KERNEL_CS), (IdtDesc.reserved4, 0),
    (IdtDesc.size, 1), (IdtDesc.reserved3, 0), (IdtDesc.reserved2, 1), (IdtDesc.reserved1, 1),
    (IdtDesc.reserved0, 0), (IdtDesc.dpl, 0), (IdtDesc.present, 1)]
  let x := if i < 32 then x.assign [(IdtDesc.reserved3, 1)] else x
  if i = 0x80 then x.assign [(IdtDesc.reserved3, 1), (IdtDesc.dpl, 3)] else x

/-- The calls of `set_exceptions`. -/
def set_exceptions : List (ℕ × Label) :=
  [(0, .EXCEPTION 0), (1, .EXCEPTION 1), (2, .EXCEPTION 2), (3, .EXCEPTION 3),
    (4, .EXCEPTION 4), (5, .EXCEPTION 5), (6, .EXCEPTION 6), (7, .EXCEPTION 7),
    (8, .EXCEPTION 8), (9, .EXCEPTION 9), (10, .EXCEPTION 10), (11, .EXCEPTION 11),
    (12, .EXCEPTION 12), (13, .EXCEPTION 13), (14, .EXCEPTION 14), (16, .EXCEPTION 16),
    (17, .EXCEPTION 17), (18, .EXCEPTION 18), (19, .EXCEPTION 19), (20, .EXCEPTION 1),
    (21, .EXCEPTION 1), (22, .EXCEPTION 1), (23, .EXCEPTION 1), (24, .EXCEPTION 1),
    (25, .EXCEPTION 1), (26, .EXCEPTION 1), (27, .EXCEPTION 1), (28, .EXCEPTION 1),
    (29, .EXCEPTION 1), (30, .EXCEPTION 1), (31, .EXCEPTION 1)]

/-- And those of `set_interrupts`. -/
def set_interrupts : List (ℕ × Label) :=
  [(40, .RTC_handler), (33, .KB_handler), (32, .PIT_handler)]

def setEntries (sym : Label → StringMachine.Word) (calls : List (ℕ × Label)) (idt : ℕ → IdtEntry) :
    ℕ → IdtEntry :=
  calls.foldl (fun idt p =>
    Function.update idt p.1 (SET_IDT_ENTRY (sym p.2) (idt p.1))) idt

def initialize_IDT (sym : Label → StringMachine.Word) (idt : ℕ → IdtEntry) : ℕ → IdtEntry :=
  let idt := fun i => if i < NUM_VEC then initEntry i (idt i) else idt i
  let idt := setEntries sym set_interrupts (setEntries sym set_exceptions idt)
  setEntries sym [(0x80, .syscall)] idt

/-- The handler of a vector. -/
def handlerOf (vec : ℕ) : Option Label :=
  (set_exceptions ++ set_interrupts ++ [(0x80, Label.syscall)]).lookup vec

/-! ## What the processor finds -/

/-- A table after entries for different vectors have been set. -/
theorem setEntries_eq (sym : Label → StringMachine.Word) {calls : List (ℕ × Label)}
    (hnodup : (calls.map Prod.fst).Nodup) (idt : ℕ → IdtEntry) (vec : ℕ) :
    setEntries sym calls idt vec =
      match calls.lookup vec with
      | some l => SET_IDT_ENTRY (sym l) (idt vec)
      | none => idt vec := by
  induction calls generalizing idt with
  | nil => rfl
  | cons p calls ih =>
    obtain ⟨v, l⟩ := p
    rw [List.map_cons, List.nodup_cons] at hnodup
    unfold setEntries at ih ⊢
    rw [List.foldl_cons, ih hnodup.2]
    by_cases hv : vec = v
    · subst hv
      have hlater : calls.lookup vec = none := by
        rw [List.lookup_eq_none_iff]
        intro q hq
        rw [bne_iff_ne]
        intro heq
        exact hnodup.1 (List.mem_map.mpr ⟨q, hq, heq.symm⟩)
      rw [hlater, List.lookup_cons, beq_self_eq_true, Function.update_self]
    · rw [List.lookup_cons, beq_false_of_ne hv, Function.update_of_ne hv]

/-- The handler of every vector that has one. -/
theorem initialize_IDT_eq (sym : Label → StringMachine.Word) (idt : ℕ → IdtEntry) {vec : ℕ}
    (hvec : vec < NUM_VEC) :
    initialize_IDT sym idt vec =
      match handlerOf vec with
      | some l => SET_IDT_ENTRY (sym l) (initEntry vec (idt vec))
      | none => initEntry vec (idt vec) := by
  have hall : setEntries sym (set_exceptions ++ set_interrupts ++ [(0x80, Label.syscall)])
      (fun i => if i < NUM_VEC then initEntry i (idt i) else idt i) =
      initialize_IDT sym idt := by
    unfold setEntries initialize_IDT
    rw [List.foldl_append, List.foldl_append]
    rfl
  rw [← hall, setEntries_eq sym (by decide), if_pos hvec]
  rfl

/-- What a list of assignments leaves in a field: the last one to it counts. -/
def assigned (f : BitField) (fields : List (BitField × ℕ)) (old : ℕ) : ℕ :=
  fields.foldl (fun v p => if p.1 = f then p.2 % 2 ^ f.len else v) old

theorem get_assign {f : BitField} {fields : List (BitField × ℕ)} (hf : f.lo + f.len ≤ 64)
    (hfields : ∀ p ∈ fields, p.1 = f ∨ BitField.Disjoint f p.1) (x : IdtEntry) :
    f.get (x.assign fields) = assigned f fields (f.get x) := by
  induction fields generalizing x with
  | nil => rfl
  | cons p fields ih =>
    have hrest : ∀ q ∈ fields, q.1 = f ∨ BitField.Disjoint f q.1 := fun q hq =>
      hfields q (List.mem_cons_of_mem _ hq)
    have hfirst : f.get (p.1.set x p.2) = if p.1 = f then p.2 % 2 ^ f.len else f.get x := by
      by_cases hp : p.1 = f
      · rw [if_pos hp, hp, BitField.get_set_self _ _ _ hf]
      · rw [if_neg hp]
        exact BitField.get_set_of_disjoint _ _ _ _
          ((hfields p (List.mem_cons_self ..)).resolve_left hp)
    show f.get (IdtEntry.assign (p.1.set x p.2) fields) = _
    rw [ih hrest, hfirst]
    rfl

/-- The assignments of `initEntry`. -/
def initFields (i : ℕ) : List (BitField × ℕ) :=
  [(IdtDesc.seg_selector, KERNEL_CS), (IdtDesc.reserved4, 0), (IdtDesc.size, 1),
    (IdtDesc.reserved3, 0), (IdtDesc.reserved2, 1), (IdtDesc.reserved1, 1),
    (IdtDesc.reserved0, 0), (IdtDesc.dpl, 0), (IdtDesc.present, 1)] ++
  (if i < 32 then [(IdtDesc.reserved3, 1)] else []) ++
  if i = 0x80 then [(IdtDesc.reserved3, 1), (IdtDesc.dpl, 3)] else []

theorem initEntry_eq (i : ℕ) (x : IdtEntry) : initEntry i x = x.assign (initFields i) := by
  unfold initEntry initFields IdtEntry.assign
  rw [List.foldl_append, List.foldl_append]
  split_ifs <;> rfl

/-- The fields of a gate. -/
theorem get_initEntry (i : ℕ) (x : IdtEntry) :
    IdtDesc.present.get (initEntry i x) = 1 ∧ IdtDesc.reserved0.get (initEntry i x) = 0 ∧
    IdtDesc.size.get (initEntry i x) = 1 ∧ IdtDesc.reserved1.get (initEntry i x) = 1 ∧
    IdtDesc.reserved2.get (initEntry i x) = 1 ∧
    IdtDesc.seg_selector.get (initEntry i x) = KERNEL_CS ∧
    IdtDesc.dpl.get (initEntry i x) = (if i = 0x80 then 3 else 0) ∧
    IdtDesc.reserved3.get (initEntry i x) = (reserved3 i).toNat := by
  rw [initEntry_eq]
  unfold initFields reserved3
  by_cases h32 : i < 32
  · have h80 : i ≠ 0x80 := by omega
    rw [if_pos h32, if_neg h80, if_neg h80, decide_eq_true h32]
    refine ⟨?_, ?_, ?_, ?_, ?_, ?_, ?_, ?_⟩
    all_goals
      rw [get_assign (by decide) (by decide)]
      rfl
  · rw [if_neg h32, decide_eq_false h32, Bool.false_or]
    by_cases h80 : i = 0x80
    · rw [if_pos h80, if_pos h80, beq_iff_eq.mpr h80]
      refine ⟨?_, ?_, ?_, ?_, ?_, ?_, ?_, ?_⟩
      all_goals
        rw [get_assign (by decide) (by decide)]
        rfl
    · rw [if_neg h80, if_neg h80, beq_false_of_ne h80]
      refine ⟨?_, ?_, ?_, ?_, ?_, ?_, ?_, ?_⟩
      all_goals
        rw [get_assign (by decide) (by decide)]
        rfl

/-- The two halves of a handler's address. -/
theorem append_halves (a : StringMachine.Word) :
    BitVec.ofNat 16 ((a &&& 0xFFFF0000) >>> 16).toNat ++ BitVec.ofNat 16 (a &&& 0xFFFF).toNat =
      a := by
  have ha := a.isLt
  have hlow : (a &&& 0xFFFF).toNat = a.toNat % 2 ^ 16 := by
    rw [BitVec.toNat_and]
    exact Nat.and_two_pow_sub_one_eq_mod a.toNat 16
  have hhigh : ((a &&& 0xFFFF0000) >>> 16).toNat = a.toNat / 2 ^ 16 := by
    rw [BitVec.toNat_ushiftRight, BitVec.toNat_and, Nat.shiftRight_and_distrib,
      Nat.shiftRight_eq_div_pow]
    have hmask := Nat.and_two_pow_sub_one_eq_mod (a.toNat / 2 ^ 16) 16
    rw [Nat.mod_eq_of_lt (by omega)] at hmask
    exact hmask
  apply BitVec.eq_of_toNat_eq
  rw [BitVec.toNat_append, BitVec.toNat_ofNat, BitVec.toNat_ofNat, hlow, hhigh,
    ← Nat.shiftLeft_add_eq_or_of_lt (Nat.mod_lt _ (by decide)), Nat.shiftLeft_eq]
  omega

/-- Setting a handler sets the offset and nothing else. -/
theorem gateOf_SET_IDT_ENTRY (handler : StringMachine.Word) (x : IdtEntry) :
    gateOf (SET_IDT_ENTRY handler x) = (gateOf x).map fun g => { g with offset := handler } := by
  have hother : ∀ f : BitField, BitField.Disjoint f IdtDesc.offset_31_16 →
      BitField.Disjoint f IdtDesc.offset_15_00 → f.get (SET_IDT_ENTRY handler x) = f.get x := by
    intro f hhigh hlow
    unfold SET_IDT_ENTRY IdtEntry.assign
    dsimp only [List.foldl]
    rw [BitField.get_set_of_disjoint _ _ _ _ hlow, BitField.get_set_of_disjoint _ _ _ _ hhigh]
  have hhigh : IdtDesc.offset_31_16.get (SET_IDT_ENTRY handler x) =
      ((handler &&& 0xFFFF0000) >>> 16).toNat % 2 ^ 16 := by
    unfold SET_IDT_ENTRY IdtEntry.assign
    dsimp only [List.foldl]
    rw [BitField.get_set_of_disjoint _ _ _ _ (by decide), BitField.get_set_self _ _ _ (by decide)]
    rfl
  have hlow : IdtDesc.offset_15_00.get (SET_IDT_ENTRY handler x) =
      (handler &&& 0xFFFF).toNat % 2 ^ 16 := by
    unfold SET_IDT_ENTRY IdtEntry.assign
    dsimp only [List.foldl]
    rw [BitField.get_set_self _ _ _ (by decide)]
    rfl
  have hmod : ∀ v, BitVec.ofNat 16 (v % 2 ^ 16) = BitVec.ofNat 16 v := by
    intro v
    apply BitVec.eq_of_toNat_eq
    rw [BitVec.toNat_ofNat, BitVec.toNat_ofNat, Nat.mod_mod]
  unfold gateOf
  rw [hother IdtDesc.present (by decide) (by decide),
    hother IdtDesc.reserved0 (by decide) (by decide), hother IdtDesc.size (by decide) (by decide),
    hother IdtDesc.reserved1 (by decide) (by decide),
    hother IdtDesc.reserved2 (by decide) (by decide),
    hother IdtDesc.seg_selector (by decide) (by decide), hother IdtDesc.dpl (by decide) (by decide),
    hother IdtDesc.reserved3 (by decide) (by decide), hhigh, hlow, hmod, hmod, append_halves]
  split_ifs <;> rfl

/-- The gate of a vector, with the offset it had if it has no handler. -/
def gateAt (sym : Label → StringMachine.Word) (idt : ℕ → IdtEntry) (vec : ℕ) : Gate where
  offset :=
    match handlerOf vec with
    | some l => sym l
    | none => BitVec.ofNat 16 (IdtDesc.offset_31_16.get (idt vec)) ++
        BitVec.ofNat 16 (IdtDesc.offset_15_00.get (idt vec))
  selector := BitVec.ofNat 16 KERNEL_CS
  dpl := if vec = 0x80 then 3 else 0
  trap := reserved3 vec

theorem gateOf_initEntry (vec : ℕ) (x : IdtEntry) :
    gateOf (initEntry vec x) = some {
      offset := BitVec.ofNat 16 (IdtDesc.offset_31_16.get x) ++
        BitVec.ofNat 16 (IdtDesc.offset_15_00.get x)
      selector := BitVec.ofNat 16 KERNEL_CS
      dpl := if vec = 0x80 then 3 else 0
      trap := reserved3 vec } := by
  obtain ⟨hpresent, h0, hsize, h1, h2, hsel, hdpl, h3⟩ := get_initEntry vec x
  have hhigh : IdtDesc.offset_31_16.get (initEntry vec x) = IdtDesc.offset_31_16.get x := by
    rw [initEntry_eq]
    unfold initFields
    split_ifs <;> rw [get_assign (by decide) (by decide)] <;> rfl
  have hlow : IdtDesc.offset_15_00.get (initEntry vec x) = IdtDesc.offset_15_00.get x := by
    rw [initEntry_eq]
    unfold initFields
    split_ifs <;> rw [get_assign (by decide) (by decide)] <;> rfl
  unfold gateOf
  rw [if_pos ⟨hpresent, h0, hsize, h1, h2⟩, hsel, hdpl, h3, hhigh, hlow]
  cases reserved3 vec <;> rfl

/-- After `initialize_IDT` every vector has its gate, whatever the table held before. -/
theorem gateOf_initialize_IDT (sym : Label → StringMachine.Word) (idt : ℕ → IdtEntry) {vec : ℕ}
    (hvec : vec < NUM_VEC) :
    gateOf (initialize_IDT sym idt vec) = some (gateAt sym idt vec) := by
  rw [initialize_IDT_eq sym idt hvec]
  unfold gateAt
  cases handlerOf vec with
  | none => exact gateOf_initEntry vec (idt vec)
  | some l =>
    dsimp only
    rw [gateOf_SET_IDT_ENTRY, gateOf_initEntry]
    rfl

/-! ## Behind the gates -/

/-- The interrupt flag behind a gate. -/
theorem intf_gateFlags (trap : Bool) (eflags : StringMachine.Word) :
    Flag.intf.get (gateFlags trap eflags) = if trap then Flag.intf.get eflags else 0 := by
  unfold gateFlags StackMachine.setFlags
  dsimp only [List.foldl]
  cases trap with
  | true =>
    rw [if_pos rfl, if_pos rfl, BitField.get_set_of_disjoint _ _ _ _ (by decide),
      BitField.get_set_of_disjoint _ _ _ _ (by decide)]
  | false =>
    rw [if_neg Bool.false_ne_true, if_neg Bool.false_ne_true,
      BitField.get_set_self _ _ _ (by decide)]
    rfl

/-- The table that the kernel of text `t` loads, made from any earlier contents. -/
def LoadedIDT (t : Text Label) (idt : ℕ → IdtEntry) : Prop :=
  ∀ vec, t.gate vec = if vec < NUM_VEC then gateOf (initialize_IDT t.sym idt vec) else none

/-- Whatever the table held before, every vector has its gate: the handlers are entered at
their addresses in the kernel's code segment, with interrupts off unless the vector belongs to
an exception or the system calls, and a program can ask for none but 0x80. -/
theorem interrupt_gates {t : Text Label} {idt : ℕ → IdtEntry} (ht : LoadedIDT t idt) (vec : ℕ)
    (m : StackMachine.Machine) (a : StringMachine.Word) :
    (vec < NUM_VEC → ∃ m₁,
      interrupt t vec (a, m) = some ((gateAt t.sym idt vec).offset, m₁) ∧
      m₁.cs = BitVec.ofNat 16 KERNEL_CS ∧
      Flag.intf.get m₁.eflags = if reserved3 vec then Flag.intf.get m.eflags else 0) ∧
    (m.cpl = 3 → ((trap t vec a m).isSome ↔ vec = 0x80)) := by
  refine ⟨fun hvec => ?_, fun huser => ?_⟩
  · have hgate := ht vec
    rw [if_pos hvec, gateOf_initialize_IDT _ _ hvec] at hgate
    refine ⟨(m.enter (gateAt t.sym idt vec) a).2, ?_, rfl, ?_⟩
    · unfold interrupt
      rw [hgate]
      rfl
    · exact intf_gateFlags _ _
  · unfold trap
    rw [ht vec]
    by_cases hvec : vec < NUM_VEC
    · rw [if_pos hvec, gateOf_initialize_IDT _ _ hvec]
      dsimp only [gateAt]
      rw [huser]
      by_cases h80 : vec = 0x80
      · rw [if_pos (by rw [if_pos h80])]
        exact iff_of_true rfl h80
      · rw [if_neg (by rw [if_neg h80]; decide)]
        exact iff_of_false Bool.false_ne_true h80
    · rw [if_neg hvec]
      refine iff_of_false Bool.false_ne_true fun h80 => hvec ?_
      rw [h80]
      decide

/-- A program at privilege level 3. -/
def sampleProgram : StackMachine.Machine where
  reg r := if r = .esp then 0x83fff00 else 0
  eflags := 0x202
  cs := 0x23
  ss := 0x2b
  mem _ := 0
  ss0 := 0x18
  esp0 := 0x800000

/-- A text of nothing but labels, with the gates that `initialize_IDT` makes of zeros. -/
def sampleGates (sym : Label → StringMachine.Word) : Text Label where
  sym := sym
  code _ := none
  table _ _ := 0
  gate vec := if vec < NUM_VEC then gateOf (initialize_IDT sym (fun _ => 0) vec) else none

/-- The keyboard interrupts a program, which cannot ask for that handler itself. -/
theorem interrupt_gates_keyboard :
    (∃ m, interrupt (sampleGates fun _ => 0x400000) 33 (0x8048000, sampleProgram) =
      some (0x400000, m) ∧ m.cs = 0x10 ∧ Flag.intf.get m.eflags = 0) ∧
    (trap (sampleGates fun _ => 0x400000) 33 0x8048000 sampleProgram).isSome = false := by
  have hloaded : LoadedIDT (sampleGates fun _ => 0x400000) fun _ => 0 := fun _ => rfl
  obtain ⟨hgate, htrap⟩ := interrupt_gates hloaded 33 sampleProgram 0x8048000
  refine ⟨hgate (by decide), Bool.eq_false_iff.mpr fun hsome => ?_⟩
  exact absurd ((htrap rfl).mp hsome) (by decide)

end Kernel391
