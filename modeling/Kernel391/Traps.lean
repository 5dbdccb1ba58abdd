import Kernel391.Gates

/-!
# Into the kernel and back (`interrupt_handler.S`, `ece391syscall.S`)

The assembly of the two files, wherever the linker has put it, on the machine with a stack. The
handlers in C are any routines that keep to the calling convention. Then interrupts are
transparent (`interrupt_transparent`), and a system call of a program takes three arguments from
the caller's stack to the handler and its result back (`system_call`). The code runs here without
a timer tick between the store and the load of `ret_val`; what one does there is in `Dispatcher`.
-/

namespace Kernel391

open StackMachine

/-! ## The program -/

/-- `EXCEPTION_n`, `RTC_handler`, `KB_handler`, `PIT_handler` and `syscall`, which differ in the
number they push. -/
def handlerEntry (l : Label) (number : StringMachine.Word) : List (Instr Label) :=
  [.label l, .pushal, .pushfl, .pushl (.imm number), .jmp .interrupt_handler]

def exceptionNumbers : List ℕ := [0, 1, 2, 3, 4, 5, 6, 7, 8, 9, 10, 11, 12, 13, 14, 16, 17, 18, 19]

/-- The common part of all handlers. -/
def commonHandler : List (Instr Label) :=
  [.label .interrupt_handler,
    .popl .edi,
    .cmpl (.imm 0) .edi,
    .jl .interrupt,
    .cmpl (.imm 0x80) .edi,
    .je .syscall_jump_sub,
    .cli,
    .jmp .handle,
    .label .interrupt,
    .notl .edi,
    .label .handle,
    .call_table .int_jumptable .edi,
    .popfl,
    .popal,
    .iret,
    .label .syscall_jump_sub,
    .cmpl (.imm 1) .eax,
    .jl .invalid_sysnum,
    .cmpl (.imm 10) .eax,
    .jg .invalid_sysnum,
    .pushl (.reg .edx),
    .pushl (.reg .ecx),
    .pushl (.reg .ebx),
    .call_table .syscall_jumptable .eax,
    .movl (.reg .eax) (.var .ret_val),
    .addl (.imm 12) .esp,
    .jmp .finish_syscall,
    .label .invalid_sysnum,
    .movl (.imm (-1)) (.var .ret_val),
    .label .finish_syscall,
    .popfl,
    .popal,
    .movl (.var .ret_val) (.reg .eax),
    .iret]

/-- The text of `interrupt_handler.S` up to the jump tables. -/
def interrupt_handler_S : List (Instr Label) :=
  exceptionNumbers.flatMap (fun n => handlerEntry (.EXCEPTION n) (BitVec.ofNat 32 n)) ++
    (handlerEntry .RTC_handler (-41) ++ handlerEntry .KB_handler (-34) ++
      handlerEntry .PIT_handler (-33) ++ handlerEntry .syscall 0x80 ++ commonHandler)

/-- The entries of `int_jumptable`; six of them are null. -/
def int_jumptable : List (Option Label) :=
  (List.range 20).map (fun n => some (.exception n)) ++ List.replicate 12 (some (.exception 1)) ++
    [some .pit_interrupt_handler, some .keyboard_interrupt_handler] ++
    List.replicate 6 none ++ [some .rtc_interrupt_handler]

/-- The entries of `syscall_jumptable`, from 1 to 10. -/
def syscall_jumptable (number : ℕ) : Option Label :=
  if 1 ≤ number ∧ number ≤ 10 then some (.func number) else none

/-- `DO_CALL(name, number)`. -/
def DO_CALL (number : ℕ) : List (Instr Label) :=
  [.label (.wrapper number),
    .pushl (.reg .ebx),
    .movl (.imm (BitVec.ofNat 32 number)) (.reg .eax),
    .movl (.disp 8 .esp) (.reg .ebx),
    .movl (.disp 12 .esp) (.reg .ecx),
    .movl (.disp 16 .esp) (.reg .edx),
    .int 0x80,
    .popl .ebx,
    .ret]

/-- The kernel has been linked and loaded, and has set up its interrupt descriptors. -/
structure Linked (t : Text Label) : Prop where
  assembled : ∃ a, Assembled t a interrupt_handler_S
  interrupts : ∀ (vec : ℕ) (l : Label), int_jumptable[vec]? = some (some l) →
    t.table .int_jumptable (BitVec.ofNat 32 vec) = t.sym l
  calls : ∀ (number : ℕ) (l : Label), syscall_jumptable number = some l →
    t.table .syscall_jumptable (BitVec.ofNat 32 number) = t.sym l
  idt : ∃ idt, LoadedIDT t idt

/-! A text with the kernel, one wrapper, and one routine for all handlers. -/

def sampleSym : Label → StringMachine.Word
  | .ret_val => 0x600000
  | .wrapper _ => 0x8048000
  | .exception _ | .func _ | .pit_interrupt_handler | .keyboard_interrupt_handler
  | .rtc_interrupt_handler => 0x500000
  | l => 0x400000 + BitVec.ofNat 32 (place l interrupt_handler_S)

def sampleText (f : StackMachine.Machine → Config) : Text Label where
  sym := sampleSym
  code x :=
    if x = 0x500000 then some (.routine f)
    else
      ((unlabelled interrupt_handler_S)[(x - 0x400000).toNat]?.or
        (unlabelled (DO_CALL 3))[(x - 0x8048000).toNat]?).map (.instr · 1)
  table l index :=
    match l with
    | .int_jumptable => ((int_jumptable[index.toNat]?.join).map sampleSym).getD 0
    | _ => ((syscall_jumptable index.toNat).map sampleSym).getD 0
  gate vec :=
    if vec < NUM_VEC then gateOf (initialize_IDT sampleSym (fun _ => 0) vec) else none

theorem sampleSym_label {l : Label} (h : .label l ∈ interrupt_handler_S) :
    sampleSym l = 0x400000 + BitVec.ofNat 32 (place l interrupt_handler_S) := by
  cases l with
  | ret_val | wrapper _ | exception _ | func _ | pit_interrupt_handler
  | keyboard_interrupt_handler | rtc_interrupt_handler =>
    simp [interrupt_handler_S, handlerEntry, commonHandler] at h
  | _ => rfl

theorem length_interrupt_handler_S : (unlabelled interrupt_handler_S).length < 150 := by decide

theorem sampleText_linked (f : StackMachine.Machine → Config) : Linked (sampleText f) where
  assembled := by
    refine ⟨0x400000, assembled_of_place (fun l => sampleSym_label) (by decide) fun k i hk => ?_⟩
    obtain ⟨hlt, -⟩ := List.getElem?_eq_some_iff.mp hk
    have hlen := length_interrupt_handler_S
    have hne : (0x400000 + BitVec.ofNat 32 k : StringMachine.Word) ≠ 0x500000 := by
      bv_omega
    show (if _ then _ else _) = _
    rw [if_neg hne, StringMachine.toNat_add_sub _ (by omega), hk]
    rfl
  interrupts vec l h := by
    have hlt : vec < 41 := by
      obtain ⟨hvec, -⟩ := List.getElem?_eq_some_iff.mp h
      exact hvec
    show ((int_jumptable[(BitVec.ofNat 32 vec).toNat]?.join).map sampleSym).getD 0 = _
    rw [BitVec.toNat_ofNat, Nat.mod_eq_of_lt (by omega), h]
    rfl
  calls number l h := by
    have hle : number ≤ 10 := by
      unfold syscall_jumptable at h
      split_ifs at h with hnumber
      exact hnumber.2
    show ((syscall_jumptable (BitVec.ofNat 32 number).toNat).map sampleSym).getD 0 = _
    rw [BitVec.toNat_ofNat, Nat.mod_eq_of_lt (by omega), h]
    rfl
  idt := ⟨fun _ => 0, fun _ => rfl⟩

theorem sampleText_wrapper (f : StackMachine.Machine → Config) :
    Assembled (sampleText f) 0x8048000 (DO_CALL 3) := by
  refine assembled_of_place (fun l hl => ?_) (by decide) fun k i hk => ?_
  · cases l with
    | wrapper number =>
      simp [DO_CALL] at hl
      rw [hl]
      rfl
    | _ => simp [DO_CALL] at hl
  · obtain ⟨hlt, -⟩ := List.getElem?_eq_some_iff.mp hk
    have hlt8 : k < 8 := hlt
    have hlen := length_interrupt_handler_S
    have hne : (0x8048000 + BitVec.ofNat 32 k : StringMachine.Word) ≠ 0x500000 := by
      bv_omega
    have hfar : (unlabelled interrupt_handler_S)[
        (0x8048000 + BitVec.ofNat 32 k - 0x400000 : StringMachine.Word).toNat]? = none := by
      apply List.getElem?_eq_none
      bv_omega
    show (if _ then _ else _) = _
    rw [if_neg hne, hfar, StringMachine.toNat_add_sub _ (by omega), hk]
    rfl

/-! ## Routines in C -/

/-- From a call with `args` arguments on the stack, the routine returns to where it was called
from, and keeps the registers that are not the caller's to save and the stack above its
arguments. -/
structure KeepsConvention (args : ℕ) (f : StackMachine.Machine → Config)
    (m : StackMachine.Machine) : Prop where
  back : (f m).1 = m.top
  esp : (f m).2.reg .esp = m.reg .esp + 4
  reg : ∀ r ∈ [Reg.ebx, .ebp, .esi, .edi], (f m).2.reg r = m.reg r
  cs : (f m).2.cs = m.cs
  stack : ∀ l : List StringMachine.Word, l.length ≤ 16 →
    StackMachine.Holds m.mem (m.reg .esp + 4 + BitVec.ofNat 32 (4 * args)) l →
    StackMachine.Holds (f m).2.mem (m.reg .esp + 4 + BitVec.ofNat 32 (4 * args)) l

/-- A routine that answers 7. -/
def sampleRoutine (m : StackMachine.Machine) : Config := (m.top, (m.setReg .eax 7).drop)

theorem sampleRoutine_returns (args : ℕ) (m : StackMachine.Machine) :
    KeepsConvention args sampleRoutine m where
  back := rfl
  esp := drop_esp _
  reg r hr := by
    simp only [List.mem_cons, List.not_mem_nil, or_false] at hr
    rcases hr with rfl | rfl | rfl | rfl <;> rfl
  cs := rfl
  stack _ _ h := h

/-! ## Where the labels lead -/

section
variable {t : Text Label}

theorem Linked.behind (h : Linked t) (l : Label) (hl : .label l ∈ interrupt_handler_S) :
    Assembled t (t.sym l) (behind l interrupt_handler_S) := by
  obtain ⟨a, ha⟩ := h.assembled
  exact ha.behind hl

theorem Linked.gate (h : Linked t) {vec : ℕ} {l : Label} (hl : handlerOf vec = some l)
    (hvec : vec < NUM_VEC) :
    ∃ g, t.gate vec = some g ∧ g.offset = t.sym l ∧ g.selector = BitVec.ofNat 16 KERNEL_CS ∧
      g.dpl = (if vec = 0x80 then 3 else 0) ∧ g.trap = reserved3 vec := by
  obtain ⟨idt, hidt⟩ := h.idt
  refine ⟨gateAt t.sym idt vec, ?_, ?_, rfl, rfl, rfl⟩
  · rw [hidt vec, if_pos hvec, gateOf_initialize_IDT _ _ hvec]
  · unfold gateAt
    rw [hl]

end

/-! ## The interrupted machine on the stack -/

section
variable {t : Text Label} {m₀ m : StackMachine.Machine} {a flags : StringMachine.Word}

/-- Flags, registers and the frame of the gate lie on the kernel's stack. -/
structure Saved (m₀ : StackMachine.Machine) (a flags : StringMachine.Word)
    (m : StackMachine.Machine) : Prop where
  cs : m.cs = BitVec.ofNat 16 KERNEL_CS
  esp : m.reg .esp = m₀.trapBase - BitVec.ofNat 32 (4 * (9 + (m₀.trapFrame a).length))
  stack : ∃ reg, (∀ r, r ≠ .esp → reg r = m₀.reg r) ∧
    m.Stack (flags :: (savedRegs reg ++ m₀.trapFrame a))

theorem length_trapFrame (m₀ : StackMachine.Machine) (a : StringMachine.Word) :
    (m₀.trapFrame a).length ≤ 5 := by
  unfold StackMachine.Machine.trapFrame
  split_ifs <;> simp

theorem kernel_cpl (h : m.cs = BitVec.ofNat 16 KERNEL_CS) : m.cpl = 0 := by
  unfold StackMachine.Machine.cpl
  rw [h]
  rfl

theorem Saved.congr {m' : StackMachine.Machine} (h : Saved m₀ a flags m) (hcs : m'.cs = m.cs)
    (hesp : m'.reg .esp = m.reg .esp) (hmem : m'.mem = m.mem) : Saved m₀ a flags m' := by
  obtain ⟨reg, hreg, hstack⟩ := h.stack
  exact ⟨hcs.trans h.cs, hesp.trans h.esp, reg, hreg, hstack.congr hesp hmem⟩

/-- The interrupted machine with registers `reg`, and the memory of the kernel. -/
def restored (m₀ : StackMachine.Machine) (reg : StackMachine.Reg → StringMachine.Word)
    (m : StackMachine.Machine) : StackMachine.Machine :=
  { m with
    reg := reg
    eflags := m₀.eflags
    cs := m₀.cs
    ss := if m₀.cpl = 0 then m.ss else m₀.ss }

/-- Registers and flags have been popped; the frame of the gate is on top. -/
structure Popped (m₀ : StackMachine.Machine) (a : StringMachine.Word)
    (reg : StackMachine.Reg → StringMachine.Word) (m : StackMachine.Machine) : Prop where
  cs : m.cs = BitVec.ofNat 16 KERNEL_CS
  esp : m.reg .esp = m₀.trapBase - BitVec.ofNat 32 (4 * (m₀.trapFrame a).length)
  reg : ∀ r, r ≠ .esp → m.reg r = reg r
  stack : m.Stack (m₀.trapFrame a)

theorem Saved.popped (h : Saved m₀ a flags m) :
    Popped m₀ a m₀.reg ({ m.drop with eflags := m.top } : StackMachine.Machine).popal := by
  obtain ⟨reg, hreg, hstack⟩ := h.stack
  have hflags : ({ m.drop with eflags := m.top } : StackMachine.Machine).Stack
      (savedRegs reg ++ m₀.trapFrame a) := hstack.drop.congr rfl rfl
  obtain ⟨hregs, hesp, hframe⟩ := hflags.popal
  have hdrop : ({ m.drop with eflags := m.top } : StackMachine.Machine).reg .esp =
      m.reg .esp + 4 := drop_esp m
  have hsum : (4 : StringMachine.Word) + 32 = BitVec.ofNat 32 (4 * 9) := by decide
  refine ⟨(popal_cs _).trans h.cs, ?_, fun r hr => (hregs r hr).trans (hreg r hr), hframe⟩
  rw [hesp, hdrop, h.esp, BitVec.add_assoc, hsum, Nat.mul_add, BitVec.ofNat_add, ← sub_sub,
    sub_right_comm, BitVec.sub_add_cancel]

theorem Popped.iret {reg : StackMachine.Reg → StringMachine.Word} (h : Popped m₀ a reg m)
    (hreg : reg .esp = m₀.reg .esp) : m.iret = some (a, restored m₀ reg m) := by
  rw [iret_trapFrame (kernel_cpl h.cs) h.stack h.esp]
  have hall : Function.update m.reg .esp (m₀.reg .esp) = reg := by
    funext r
    by_cases hr : r = .esp
    · rw [hr, Function.update_self, hreg]
    · rw [Function.update_of_ne hr, h.reg r hr]
  unfold StackMachine.Machine.resumed
  rw [hall]
  rfl

/-- The way out of an interrupt. -/
theorem Saved.iret {rest : List (Instr Label)} (h : Saved m₀ a flags m) :
    Leads t (.popfl :: .popal :: .iret :: rest) m (· = (a, restored m₀ m₀.reg m)) :=
  .popfl (.popal (.iret (h.popped.iret rfl) rfl))

/-- The way in: an entry point has pushed its number, which has been popped into `edi`. -/
def atHandler (m : StackMachine.Machine) (number : StringMachine.Word) : StackMachine.Machine :=
  ((m.pushal.push m.pushal.eflags).push number).pop .edi

theorem saved_atHandler {g : Gate} (number : StringMachine.Word)
    (h : StackMachine.Entered m₀ g a m) (hsel : g.selector = BitVec.ofNat 16 KERNEL_CS) :
    Saved m₀ a m.eflags (atHandler m number) ∧
    (atHandler m number).reg .edi = number ∧
    (∀ r, r ≠ .esp → r ≠ .edi → (atHandler m number).reg r = m₀.reg r) ∧
    ∀ x, ¬ Below m₀.trapBase 80 x → (atHandler m number).mem x = m₀.mem x := by
  have hlen := length_trapFrame m₀ a
  have hregs : (savedRegs m.reg).length = 8 := rfl
  have h1 := h.stack.pushal (by omega)
  have h2 := h1.push (by rw [List.length_append]; omega) m.pushal.eflags
  have h3 := h2.push (by rw [List.length_cons, List.length_append]; omega) number
  have hesp : (atHandler m number).reg .esp =
      (m.pushal.push m.pushal.eflags).reg .esp := by
    unfold atHandler
    rw [pop_of_ne _ (by decide), drop_esp, push_esp, BitVec.sub_add_cancel]
  refine ⟨⟨h.cs.trans hsel, ?_, m.reg, h.reg, h3.stack.pop (by decide)⟩,
    (pop_self _ _).trans h3.stack.top, fun r hr hedi => ?_, fun x hx => ?_⟩
  · rw [hesp, h2.esp, List.length_cons, List.length_append, hregs]
    congr 3
    omega
  · unfold atHandler
    rw [pop_of_ne _ hedi, drop_reg _ hr, push_reg _ _ hr, push_reg _ _ hr, pushal_reg _ hr]
    exact h.reg r hr
  · refine h3.outside x fun hin => hx ?_
    rw [h3.esp] at hin
    refine Below.mono hin ?_ (by decide)
    rw [List.length_cons, List.length_cons, List.length_append, hregs]
    omega

/-- A push from a place near the beginning of the stack. -/
theorem push_outside {base x : StringMachine.Word} {k : ℕ} (v : StringMachine.Word)
    (hesp : m.reg .esp = base - BitVec.ofNat 32 (4 * k)) (hk : k < 20) (hx : ¬ Below base 80 x) :
    (m.push v).mem x = m.mem x := by
  refine store32_outside fun hin => hx ?_
  have hbelow : m.reg .esp - 4 = base - BitVec.ofNat 32 (4 * k + 4) := by
    rw [hesp, BitVec.ofNat_add, sub_sub]
    rfl
  rw [hbelow] at hin
  have hword : Below base (4 * k + 4) x := Nat.lt_of_lt_of_le hin (by omega)
  exact hword.mono (by omega) (by decide)

theorem push_base {base : StringMachine.Word} {k : ℕ} (v : StringMachine.Word)
    (hesp : m.reg .esp = base - BitVec.ofNat 32 (4 * k)) :
    (m.push v).reg .esp = base - BitVec.ofNat 32 (4 * (k + 1)) := by
  rw [push_esp, hesp, Nat.mul_add, BitVec.ofNat_add, sub_sub]
  rfl

/-- A routine keeps the interrupted machine saved. -/
theorem Saved.returns {args : ℕ} {f : StackMachine.Machine → Config}
    {c m' : StackMachine.Machine} (h : Saved m₀ a flags m) (hf : KeepsConvention args f c)
    (hcs : c.cs = m.cs) (hesp : c.reg .esp + 4 + BitVec.ofNat 32 (4 * args) = m.reg .esp)
    (hstack : ∀ l, l.length ≤ 16 → m.Stack l → StackMachine.Holds c.mem (m.reg .esp) l)
    (hcs' : m'.cs = (f c).2.cs) (hmem : m'.mem = (f c).2.mem)
    (hesp' : m'.reg .esp = (f c).2.reg .esp + BitVec.ofNat 32 (4 * args)) :
    Saved m₀ a flags m' := by
  have hlen := length_trapFrame m₀ a
  obtain ⟨reg, hreg, hsaved⟩ := h.stack
  have hsame : m'.reg .esp = m.reg .esp := by rw [hesp', hf.esp, hesp]
  refine ⟨hcs'.trans (hf.cs.trans (hcs.trans h.cs)), hsame.trans h.esp, reg, hreg, ?_⟩
  have hshort : (flags :: (savedRegs reg ++ m₀.trapFrame a)).length ≤ 16 := by
    have hregs : (savedRegs reg).length = 8 := rfl
    rw [List.length_cons, List.length_append]
    omega
  have hkept := hstack _ hshort hsaved
  rw [← hesp] at hkept
  have hafter := hf.stack _ hshort hkept
  unfold StackMachine.Machine.Stack
  rw [hsame, hmem, ← hesp]
  exact hafter

/-! ## Interrupts -/

/-- The code behind the common part's labels. -/
theorem behind_interrupt_handler :
    behind .interrupt_handler interrupt_handler_S = commonHandler.drop 1 := by decide

theorem behind_interrupt : behind .interrupt interrupt_handler_S = commonHandler.drop 9 := by
  decide

theorem behind_syscall_jump_sub :
    behind .syscall_jump_sub interrupt_handler_S = commonHandler.drop 16 := by decide

theorem behind_invalid_sysnum :
    behind .invalid_sysnum interrupt_handler_S = commonHandler.drop 28 := by decide

theorem behind_finish_syscall :
    behind .finish_syscall interrupt_handler_S = commonHandler.drop 30 := by decide

/-- The handler of a device has been called. -/
structure HandlerCalled (t : Text Label) (handler : Label) (f : StackMachine.Machine → Config)
    (m₀ : StackMachine.Machine) (a : StringMachine.Word) (c : Config) : Prop where
  at_handler : c.1 = t.sym handler
  kernel : c.2.cpl = 0
  /-- Interrupts are off. -/
  intf : Flag.intf.get c.2.eflags = 0
  /-- Only the stack has been written. -/
  outside : ∀ x, ¬ Below m₀.trapBase 80 x → c.2.mem x = m₀.mem x
  /-- Once it has returned, the interrupted machine goes on. -/
  restores : KeepsConvention 0 f c.2 → Reaches t c (a, restored m₀ m₀.reg (f c.2).2)

theorem Saved.call {handler : Label} {f : StackMachine.Machine → Config}
    {b : StringMachine.Word} {rest : List (Instr Label)} (h : Saved m₀ a flags m)
    (hintf : Flag.intf.get m.eflags = 0)
    (houtside : ∀ x, ¬ Below m₀.trapBase 80 x → m.mem x = m₀.mem x)
    (hb : Assembled t b (.popfl :: .popal :: .iret :: rest))
    (hcode : t.code (t.sym handler) = some (.routine f)) :
    HandlerCalled t handler f m₀ a (t.sym handler, m.push b) := by
  have hlen := length_trapFrame m₀ a
  have hkernel : (m.push b).cpl = 0 := kernel_cpl (m := m.push b) h.cs
  have hzero : BitVec.ofNat 32 (4 * 0) = 0 := rfl
  have hesp : (m.push b).reg .esp + 4 + BitVec.ofNat 32 (4 * 0) = m.reg .esp := by
    rw [push_esp, BitVec.sub_add_cancel, hzero, add_zero]
  refine ⟨rfl, hkernel, hintf, fun x hx => ?_, fun hret => ?_⟩
  · exact (push_outside b h.esp (by omega) hx).trans (houtside x hx)
  · have hsaved : Saved m₀ a flags (f (m.push b)).2 := by
      refine h.returns hret rfl hesp (fun l hl hstack => ?_) rfl rfl ?_
      · exact StackMachine.Machine.Stack.holds_push hstack (by omega) b
      · rw [hzero, add_zero]
    exact hsaved.iret.routine hcode (hret.back.trans (top_push m b)) hb

/-- A number with its bits inverted. -/
def inverted (m : StackMachine.Machine) : StackMachine.Machine :=
  (m.compared 0 .edi).setReg .edi (~~~ m.reg .edi)

/-- From the first comparison on, for a negative number. -/
theorem interrupt_dispatch {vec : ℕ} {handler : Label} {number : StringMachine.Word}
    {f : StackMachine.Machine → Config} (ht : Linked t) (hsaved : Saved m₀ a flags m)
    (hedi : m.reg .edi = number) (hintf : Flag.intf.get m.eflags = 0)
    (houtside : ∀ x, ¬ Below m₀.trapBase 80 x → m.mem x = m₀.mem x)
    (hneg : number.slt 0 = true) (hnumber : ~~~ number = BitVec.ofNat 32 vec)
    (htable : int_jumptable[vec]? = some (some handler))
    (hcode : t.code (t.sym handler) = some (.routine f)) :
    Leads t (commonHandler.drop 2) m (HandlerCalled t handler f m₀ a) := by
  have hat := ht.behind .interrupt (by decide)
  rw [behind_interrupt] at hat
  have hjump : jump (m.compared 0 .edi) (.jl Label.interrupt) = some (.interrupt, true) := by
    rw [jump_jl, hedi, hneg]
  have hvec : (inverted m).reg .edi = BitVec.ofNat 32 vec := by
    unfold inverted
    rw [setReg_self, hedi, hnumber]
  have hinverted : Saved m₀ a flags (inverted m) :=
    hsaved.congr rfl (setReg_of_ne _ _ (by decide)) rfl
  have hcall : ∀ b, Assembled t b (commonHandler.drop 12) →
      HandlerCalled t handler f m₀ a (t.table .int_jumptable ((inverted m).reg .edi),
        (inverted m).push b) := by
    intro b hb
    rw [hvec, ht.interrupts _ _ htable]
    exact hinverted.call ((intf_subFlags ..).trans hintf) houtside hb hcode
  exact .cmpl (.taken hjump hat (.notl (.label (.call hcall))))

/-- The vectors of the devices, where their gates lead, and their handlers. -/
def devices : List (ℕ × Label × Label) :=
  [(32, .PIT_handler, .pit_interrupt_handler), (33, .KB_handler, .keyboard_interrupt_handler),
    (40, .RTC_handler, .rtc_interrupt_handler)]

/-- Through an entry point whose number is the vector with its bits inverted. -/
theorem interrupt_entry {vec : ℕ} {entry handler : Label} {number : StringMachine.Word}
    {rest : List (Instr Label)} {f : StackMachine.Machine → Config} (ht : Linked t)
    (hgate : handlerOf vec = some entry) (hvec : vec < NUM_VEC) (hoff : reserved3 vec = false)
    (hmem : .label entry ∈ interrupt_handler_S)
    (hentry : behind entry interrupt_handler_S =
      .pushal :: .pushfl :: .pushl (.imm number) :: .jmp .interrupt_handler :: rest)
    (hneg : number.slt 0 = true) (hnumber : ~~~ number = BitVec.ofNat 32 vec)
    (htable : int_jumptable[vec]? = some (some handler))
    (hcode : t.code (t.sym handler) = some (.routine f)) (m₀ : StackMachine.Machine)
    (a : StringMachine.Word) :
    ∃ c₀ c, interrupt t vec (a, m₀) = some c₀ ∧ Reaches t c₀ c ∧
      HandlerCalled t handler f m₀ a c := by
  obtain ⟨g, hg, hoffset, hsel, -, htrap⟩ := ht.gate hgate hvec
  have hat := ht.behind entry hmem
  have hcommon := ht.behind .interrupt_handler (by decide)
  rw [hentry, ← hoffset] at hat
  rw [behind_interrupt_handler] at hcommon
  have hent := entered_enter m₀ g a
  obtain ⟨hsaved, hedi, -, houtside⟩ := saved_atHandler number hent hsel
  have hintf : Flag.intf.get (atHandler (m₀.enter g a).2 number).eflags = 0 := by
    refine (congrArg Flag.intf.get hent.eflags).trans ?_
    rw [intf_gateFlags, htrap, hoff, if_neg Bool.false_ne_true]
  have hdispatch := interrupt_dispatch ht hsaved hedi hintf houtside hneg hnumber htable hcode
  have hlead : Leads t (.pushal :: .pushfl :: .pushl (.imm number) ::
      .jmp .interrupt_handler :: rest) (m₀.enter g a).2 (HandlerCalled t handler f m₀ a) :=
    .pushal (.pushfl (.pushl (.taken rfl hcommon (.popl hdispatch))))
  obtain ⟨c, hc, hcalled⟩ := hlead _ hat
  refine ⟨m₀.enter g a, c, ?_, hc, hcalled⟩
  unfold StackMachine.interrupt
  rw [hg]
  rfl

/-- Interrupts are transparent. Whenever a device interrupts a program or the kernel, its
handler is called with interrupts off and nothing but the kernel's stack written, and when the
handler has returned the interrupted code goes on with all its registers and flags. -/
theorem interrupt_transparent (ht : Linked t) {vec : ℕ} {entry handler : Label}
    (hdev : (vec, entry, handler) ∈ devices) {f : StackMachine.Machine → Config}
    (hcode : t.code (t.sym handler) = some (.routine f)) (m₀ : StackMachine.Machine)
    (a : StringMachine.Word) :
    ∃ c₀ c, interrupt t vec (a, m₀) = some c₀ ∧ Reaches t c₀ c ∧
      HandlerCalled t handler f m₀ a c := by
  unfold devices at hdev
  simp only [List.mem_cons, List.not_mem_nil, or_false, Prod.mk.injEq] at hdev
  rcases hdev with ⟨rfl, rfl, rfl⟩ | ⟨rfl, rfl, rfl⟩ | ⟨rfl, rfl, rfl⟩
  · have hgate : handlerOf 32 = some .PIT_handler := by decide
    have hneg : (-33 : StringMachine.Word).slt 0 = true := by decide
    exact interrupt_entry ht hgate (by decide) (by decide) (by decide) rfl hneg (by decide)
      (by decide) hcode m₀ a
  · have hgate : handlerOf 33 = some .KB_handler := by decide
    have hneg : (-34 : StringMachine.Word).slt 0 = true := by decide
    exact interrupt_entry ht hgate (by decide) (by decide) (by decide) rfl hneg (by decide)
      (by decide) hcode m₀ a
  · have hgate : handlerOf 40 = some .RTC_handler := by decide
    have hneg : (-41 : StringMachine.Word).slt 0 = true := by decide
    exact interrupt_entry ht hgate (by decide) (by decide) (by decide) rfl hneg (by decide)
      (by decide) hcode m₀ a

/-- A key is pressed while a program runs. -/
theorem interrupt_transparent_key : ∃ c₀ m,
    interrupt (sampleText sampleRoutine) 33 (0x8048100, sampleProgram) = some c₀ ∧
    Reaches (sampleText sampleRoutine) c₀
      (0x8048100, restored sampleProgram sampleProgram.reg m) := by
  have hdev : (33, Label.KB_handler, Label.keyboard_interrupt_handler) ∈ devices := by decide
  obtain ⟨c₀, c, hc₀, hc, hcalled⟩ := interrupt_transparent (sampleText_linked sampleRoutine)
    hdev rfl sampleProgram 0x8048100
  exact ⟨c₀, _, hc₀, hc.trans (hcalled.restores (sampleRoutine_returns 0 c.2))⟩

/-! ## System calls -/

/-- The result is loaded last, over the caller's `eax`. -/
theorem Popped.load {v : StringMachine.Word} (h : Popped m₀ a m₀.reg m)
    (hv : StringMachine.load32 m.mem (t.sym .ret_val) = v) :
    Leads t [.movl (.var .ret_val) (.reg .eax), .iret] m
      (· = (a, restored m₀ (Function.update m₀.reg .eax v) m)) := by
  have hloaded : Popped m₀ a (Function.update m₀.reg .eax v) (m.setReg .eax v) := by
    refine ⟨h.cs, ?_, fun r hr => ?_, ?_⟩
    · rw [setReg_of_ne _ _ (by decide)]
      exact h.esp
    · by_cases hrax : r = .eax
      · rw [hrax, setReg_self, Function.update_self]
      · rw [setReg_of_ne _ _ hrax, Function.update_of_ne hrax]
        exact h.reg r hr
    · exact h.stack.congr (setReg_of_ne _ _ (by decide)) rfl
  have hiret := hloaded.iret (Function.update_of_ne (by decide) ..)
  refine .movl (.iret (c := (a, restored m₀ (Function.update m₀.reg .eax v) m)) ?_ rfl)
  rw [← hv] at hiret ⊢
  exact hiret

theorem Saved.finish {v : StringMachine.Word} (h : Saved m₀ a flags m)
    (hv : StringMachine.load32 m.mem (t.sym .ret_val) = v) :
    Leads t (commonHandler.drop 30) m
      (· = (a, restored m₀ (Function.update m₀.reg .eax v) m)) :=
  .popfl (.popal (h.popped.load (t := t) hv))

/-- A store that misses the kernel's stack. -/
theorem Saved.store {p : StringMachine.Word} (h : Saved m₀ a flags m)
    (hp : ∀ x, Within p 4 x → ¬ Below m₀.trapBase 80 x) (v : StringMachine.Word) :
    Saved m₀ a flags { m with mem := StringMachine.store32 m.mem p v } := by
  have hlen := length_trapFrame m₀ a
  obtain ⟨reg, hreg, hstack⟩ := h.stack
  have hregs : (savedRegs reg).length = 8 := rfl
  refine ⟨h.cs, h.esp, reg, hreg, StackMachine.Holds.congr hstack ?_ fun x hx => ?_⟩
  · rw [List.length_cons, List.length_append]
    omega
  · refine store32_outside fun hin => hp x hin ?_
    rw [h.esp, List.length_cons, List.length_append, hregs,
      show 4 * (8 + (m₀.trapFrame a).length + 1) = 4 * (9 + (m₀.trapFrame a).length) by omega] at hx
    exact Below.mono hx (by omega) (by decide)

theorem Saved.compared {src : StringMachine.Word} {r : StackMachine.Reg} (h : Saved m₀ a flags m) :
    Saved m₀ a flags (m.compared src r) := h.congr rfl rfl rfl

/-- The caller of a system call with its result, which lies in `ret_val` too. -/
def answered (t : Text Label) (m₀ : StackMachine.Machine) (v : StringMachine.Word)
    (m : StackMachine.Machine) : StackMachine.Machine :=
  restored m₀ (Function.update m₀.reg .eax v)
    { m with mem := StringMachine.store32 m.mem (t.sym .ret_val) v }

/-- The handler of a system call has been called. -/
structure SyscallCalled (t : Text Label) (number : ℕ) (f : StackMachine.Machine → Config)
    (m₀ : StackMachine.Machine) (a : StringMachine.Word) (c : Config) : Prop where
  at_handler : c.1 = t.sym (.func number)
  kernel : c.2.cpl = 0
  /-- Interrupts are as they were. -/
  intf : Flag.intf.get c.2.eflags = Flag.intf.get m₀.eflags
  arguments : StackMachine.Holds c.2.mem (c.2.reg .esp + 4)
    [m₀.reg .ebx, m₀.reg .ecx, m₀.reg .edx]
  outside : ∀ x, ¬ Below m₀.trapBase 80 x → c.2.mem x = m₀.mem x
  /-- The caller goes on with what the handler returns. -/
  answers : KeepsConvention 3 f c.2 → Reaches t c (a, answered t m₀ ((f c.2).2.reg .eax) (f c.2).2)

/-- The stack of a handler: the arguments, and a return address. -/
def withArguments (m : StackMachine.Machine) (b : StringMachine.Word) : StackMachine.Machine :=
  (((m.push (m.reg .edx)).push (m.reg .ecx)).push (m.reg .ebx)).push b

theorem withArguments_stack {l : List StringMachine.Word} (b : StringMachine.Word)
    (h : m.Stack l) (hlen : l.length ≤ 16) :
    (withArguments m b).Stack (b :: m.reg .ebx :: m.reg .ecx :: m.reg .edx :: l) := by
  have h1 := h.push (by omega) (m.reg .edx)
  have h2 := h1.push (by rw [List.length_cons]; omega) (m.reg .ecx)
  have h3 := h2.push (by rw [List.length_cons, List.length_cons]; omega) (m.reg .ebx)
  exact h3.push (by rw [List.length_cons, List.length_cons, List.length_cons]; omega) b

theorem withArguments_esp (m : StackMachine.Machine) (b : StringMachine.Word) :
    (withArguments m b).reg .esp = m.reg .esp - BitVec.ofNat 32 (4 * 4) := by
  have hsum : BitVec.ofNat 32 (4 * 4) = (4 + 4 + 4 + 4 : StringMachine.Word) := by decide
  unfold withArguments
  rw [push_esp, push_esp, push_esp, push_esp, hsum, ← sub_sub, ← sub_sub, ← sub_sub]

theorem withArguments_outside {x : StringMachine.Word} (b : StringMachine.Word)
    (h : Saved m₀ a flags m) (hx : ¬ Below m₀.trapBase 80 x) :
    (withArguments m b).mem x = m.mem x := by
  have hlen := length_trapFrame m₀ a
  have h1 := push_base (m.reg .edx) h.esp
  have h2 := push_base (m.reg .ecx) h1
  have h3 := push_base (m.reg .ebx) h2
  unfold withArguments
  rw [push_outside b h3 (by omega) hx, push_outside _ h2 (by omega) hx,
    push_outside _ h1 (by omega) hx, push_outside _ h.esp (by omega) hx]

/-- What the caller finds once the handler has returned. -/
theorem Saved.answer {f : StackMachine.Machine → Config} {b : StringMachine.Word}
    (ht : Linked t) (h : Saved m₀ a flags m)
    (hret : ∀ x, Within (t.sym .ret_val) 4 x → ¬ Below m₀.trapBase 80 x)
    (hf : KeepsConvention 3 f (withArguments m b)) :
    Leads t (commonHandler.drop 24) (f (withArguments m b)).2
      (· = (a, answered t m₀ ((f (withArguments m b)).2.reg .eax) (f (withArguments m b)).2)) := by
  have hfinish := ht.behind .finish_syscall (by decide)
  rw [behind_finish_syscall] at hfinish
  have hargs : BitVec.ofNat 32 (4 * 4) = (4 : StringMachine.Word) + BitVec.ofNat 32 (4 * 3) := by
    decide
  have hesp : (withArguments m b).reg .esp + 4 + BitVec.ofNat 32 (4 * 3) = m.reg .esp := by
    rw [withArguments_esp, hargs, BitVec.add_assoc, BitVec.sub_add_cancel]
  have hstack : ∀ l : List StringMachine.Word, l.length ≤ 16 → m.Stack l →
      StackMachine.Holds (withArguments m b).mem (m.reg .esp) l := by
    intro l hl hm
    have hall := (withArguments_stack b hm hl).2.2.2.2
    have hsum : (4 : StringMachine.Word) + (4 + (4 + 4)) = BitVec.ofNat 32 (4 * 4) := by decide
    rw [withArguments_esp, BitVec.add_assoc, BitVec.add_assoc, BitVec.add_assoc, hsum,
      BitVec.sub_add_cancel] at hall
    exact hall
  have hcs : (withArguments m b).cs = m.cs := rfl
  generalize withArguments m b = c at hf hesp hstack hcs
  have hsaved : Saved m₀ a flags
      ((f c).2.setReg .esp ((f c).2.reg .esp + BitVec.ofNat 32 (4 * 3))) :=
    h.returns hf hcs hesp hstack rfl rfl (setReg_self ..)
  have hstored := hsaved.store hret ((f c).2.reg .eax)
  refine .movl (.addl (.taken rfl hfinish ?_))
  refine Saved.finish (hstored.congr rfl ?_ rfl) load32_store32
  show Function.update (f c).2.reg .esp ((f c).2.reg .esp + 12) .esp =
    Function.update (f c).2.reg .esp ((f c).2.reg .esp + BitVec.ofNat 32 (4 * 3)) .esp
  rfl

/-- The call of the handler, with the three registers as its arguments. -/
theorem Saved.syscall {number : ℕ} {f : StackMachine.Machine → Config}
    {b : StringMachine.Word} (ht : Linked t) (h : Saved m₀ a flags m)
    (hreg : ∀ r, r ≠ .esp → r ≠ .edi → m.reg r = m₀.reg r)
    (hintf : Flag.intf.get m.eflags = Flag.intf.get m₀.eflags)
    (houtside : ∀ x, ¬ Below m₀.trapBase 80 x → m.mem x = m₀.mem x)
    (hret : ∀ x, Within (t.sym .ret_val) 4 x → ¬ Below m₀.trapBase 80 x)
    (hcode : t.code (t.sym (.func number)) = some (.routine f))
    (hb : Assembled t b (commonHandler.drop 24)) :
    SyscallCalled t number f m₀ a (t.sym (.func number), withArguments m b) := by
  have hkernel : (withArguments m b).cpl = 0 := kernel_cpl (m := withArguments m b) h.cs
  have hfirst : m.Stack [] := trivial
  have hargs := (withArguments_stack b hfirst (by decide)).2
  rw [hreg .ebx (by decide) (by decide), hreg .ecx (by decide) (by decide),
    hreg .edx (by decide) (by decide)] at hargs
  refine ⟨rfl, hkernel, hintf, hargs, fun x hx => ?_, fun hf => ?_⟩
  · exact (withArguments_outside b h hx).trans (houtside x hx)
  · exact (h.answer ht hret hf).routine hcode (hf.back.trans (top_push _ b)) hb

/-- From `syscall_jump_sub` on, for the number of a system call. -/
theorem syscall_handler {number : ℕ} {f : StackMachine.Machine → Config} (ht : Linked t)
    (h : Saved m₀ a flags m)
    (hreg : ∀ r, r ≠ .esp → r ≠ .edi → m.reg r = m₀.reg r)
    (hintf : Flag.intf.get m.eflags = Flag.intf.get m₀.eflags)
    (houtside : ∀ x, ¬ Below m₀.trapBase 80 x → m.mem x = m₀.mem x)
    (hret : ∀ x, Within (t.sym .ret_val) 4 x → ¬ Below m₀.trapBase 80 x)
    (heax : m₀.reg .eax = BitVec.ofNat 32 number) (hnumber : 1 ≤ number ∧ number ≤ 10)
    (hcode : t.code (t.sym (.func number)) = some (.routine f)) :
    Leads t (commonHandler.drop 16) m (SyscallCalled t number f m₀ a) := by
  have heaxm : m.reg .eax = BitVec.ofNat 32 number :=
    (hreg .eax (by decide) (by decide)).trans heax
  have htable : t.table .syscall_jumptable (m.reg .eax) = t.sym (.func number) := by
    rw [heaxm]
    exact ht.calls number _ (if_pos hnumber)
  obtain ⟨h1, h10⟩ := hnumber
  -- both comparisons let the number pass
  have hlow : jump (m.compared 1 .eax) (.jl Label.invalid_sysnum) =
      some (.invalid_sysnum, false) := by
    rw [jump_jl, heaxm]
    interval_cases number <;> rfl
  have hhigh : jump ((m.compared 1 .eax).compared 10 .eax) (.jg Label.invalid_sysnum) =
      some (.invalid_sysnum, false) := by
    rw [jump_jg, show (m.compared 1 .eax).reg .eax = m.reg .eax from rfl, heaxm]
    interval_cases number <;> rfl
  have hcompared : Saved m₀ a flags ((m.compared 1 .eax).compared 10 .eax) := h.compared.compared
  have hcall : ∀ b, Assembled t b (commonHandler.drop 24) →
      SyscallCalled t number f m₀ a (t.table .syscall_jumptable (m.reg .eax),
        withArguments ((m.compared 1 .eax).compared 10 .eax) b) := by
    intro b hb
    rw [htable]
    refine hcompared.syscall ht hreg ?_ houtside hret hcode hb
    exact ((intf_subFlags ..).trans (intf_subFlags ..)).trans hintf
  exact .cmpl (.passed hlow (.cmpl (.passed hhigh (.pushl (.pushl (.pushl (.call hcall)))))))

/-- A number that is none of a system call: the answer is -1. -/
theorem syscall_invalid (ht : Linked t) (h : Saved m₀ a flags m)
    (hreg : ∀ r, r ≠ .esp → r ≠ .edi → m.reg r = m₀.reg r)
    (hret : ∀ x, Within (t.sym .ret_val) 4 x → ¬ Below m₀.trapBase 80 x)
    (hnumber : (m₀.reg .eax).toInt < 1 ∨ 10 < (m₀.reg .eax).toInt) :
    ∃ m', m'.mem = m.mem ∧
      Leads t (commonHandler.drop 16) m (· = (a, answered t m₀ (-1) m')) := by
  have heax : m.reg .eax = m₀.reg .eax := hreg .eax (by decide) (by decide)
  have hinvalid := ht.behind .invalid_sysnum (by decide)
  rw [behind_invalid_sysnum] at hinvalid
  -- either way the code behind the label is reached, with other flags
  have hmov : ∀ m' : StackMachine.Machine, Saved m₀ a flags m' →
      Leads t (commonHandler.drop 28) m' (· = (a, answered t m₀ (-1) m')) := by
    intro m' hm'
    exact .movl (.label ((hm'.store hret (-1)).finish load32_store32))
  by_cases hlow : (m.reg .eax).slt 1
  · have hjump : jump (m.compared 1 .eax) (.jl Label.invalid_sysnum) =
        some (.invalid_sysnum, true) := by
      rw [jump_jl, hlow]
    exact ⟨_, rfl, .cmpl (.taken hjump hinvalid (hmov _ h.compared))⟩
  · rw [Bool.not_eq_true] at hlow
    have hpassed : jump (m.compared 1 .eax) (.jl Label.invalid_sysnum) =
        some (.invalid_sysnum, false) := by
      rw [jump_jl, hlow]
    have hhigh : (10 : StringMachine.Word).slt ((m.compared 1 .eax).reg .eax) = true := by
      rw [BitVec.slt_eq_decide, decide_eq_false_iff_not] at hlow
      rw [show (m.compared 1 .eax).reg .eax = m.reg .eax from rfl, heax] at *
      exact (BitVec.slt_iff_toInt_lt ..).mpr (hnumber.resolve_left hlow)
    have htaken : jump ((m.compared 1 .eax).compared 10 .eax) (.jg Label.invalid_sysnum) =
        some (.invalid_sysnum, true) := by
      rw [jump_jg, hhigh]
    exact ⟨_, rfl, .cmpl (.passed hpassed
      (.cmpl (.taken htaken hinvalid (hmov _ h.compared.compared))))⟩

/-- From `int $0x80` to `syscall_jump_sub`. -/
theorem syscall_entry (ht : Linked t) (huser : m₀.cpl = 3) (a : StringMachine.Word) :
    ∃ c₀ m flags, trap t 0x80 a m₀ = some c₀ ∧ Saved m₀ a flags m ∧
      (∀ r, r ≠ .esp → r ≠ .edi → m.reg r = m₀.reg r) ∧
      Flag.intf.get m.eflags = Flag.intf.get m₀.eflags ∧
      (∀ x, ¬ Below m₀.trapBase 80 x → m.mem x = m₀.mem x) ∧
      ∀ Q, Leads t (commonHandler.drop 16) m Q → ∃ c, Reaches t c₀ c ∧ Q c := by
  obtain ⟨g, hg, hoffset, hsel, hdpl, htrap⟩ :=
    ht.gate (show handlerOf 0x80 = some .syscall by decide) (by decide)
  have hat := ht.behind .syscall (by decide)
  have hcommon := ht.behind .interrupt_handler (by decide)
  have hjump := ht.behind .syscall_jump_sub (by decide)
  rw [show behind .syscall interrupt_handler_S = .pushal :: .pushfl :: .pushl (.imm 0x80) ::
    .jmp .interrupt_handler :: commonHandler from rfl, ← hoffset] at hat
  rw [behind_interrupt_handler] at hcommon
  rw [behind_syscall_jump_sub] at hjump
  have hent := entered_enter m₀ g a
  obtain ⟨hsaved, hedi, hregs, houtside⟩ := saved_atHandler 0x80 hent hsel
  refine ⟨m₀.enter g a, ((atHandler (m₀.enter g a).2 0x80).compared 0 .edi).compared 0x80 .edi,
    _, ?_, hsaved.compared.compared, hregs, ?_, houtside, fun Q hQ => ?_⟩
  · unfold StackMachine.trap
    rw [hg]
    dsimp only
    rw [if_pos (by rw [huser, hdpl]; decide)]
  · refine ((intf_subFlags ..).trans (intf_subFlags ..)).trans ?_
    refine (congrArg Flag.intf.get hent.eflags).trans ?_
    rw [intf_gateFlags, htrap]
    rfl
  · have hpassed : jump ((atHandler (m₀.enter g a).2 0x80).compared 0 .edi)
        (.jl Label.interrupt) = some (.interrupt, false) := by
      rw [jump_jl, hedi]
      rfl
    have htaken : jump (((atHandler (m₀.enter g a).2 0x80).compared 0 .edi).compared 0x80 .edi)
        (.je Label.syscall_jump_sub) = some (.syscall_jump_sub, true) := by
      refine (jump_je ..).trans ?_
      rw [show ((atHandler (m₀.enter g a).2 0x80).compared 0 .edi).reg .edi =
        (atHandler (m₀.enter g a).2 0x80).reg .edi from rfl, hedi]
      rfl
    have hlead : Leads t (.pushal :: .pushfl :: .pushl (.imm 0x80) :: .jmp .interrupt_handler ::
        commonHandler) (m₀.enter g a).2 Q :=
      .pushal (.pushfl (.pushl (.taken rfl hcommon (.popl (.cmpl (.passed hpassed
        (.cmpl (.taken htaken hjump hQ))))))))
    exact hlead _ hat

/-- A program that asks for what is no system call gets -1, with no tick in between, and keeps its
other registers, its flags and its memory. -/
theorem bad_system_call (ht : Linked t) (huser : m₀.cpl = 3)
    (hret : ∀ x, Within (t.sym .ret_val) 4 x → ¬ Below m₀.esp0 80 x)
    (hnumber : (m₀.reg .eax).toInt < 1 ∨ 10 < (m₀.reg .eax).toInt) (a : StringMachine.Word) :
    ∃ c₀ m, trap t 0x80 a m₀ = some c₀ ∧ Reaches t c₀ (a, m) ∧
      m.reg = Function.update m₀.reg .eax (-1) ∧
      m.eflags = m₀.eflags ∧ m.cs = m₀.cs ∧ m.ss = m₀.ss ∧
      ∀ x, ¬ Below m₀.esp0 80 x → ¬ Within (t.sym .ret_val) 4 x → m.mem x = m₀.mem x := by
  have hkernel : m₀.cpl ≠ 0 := by omega
  have hbase : m₀.trapBase = m₀.esp0 := if_neg hkernel
  obtain ⟨c₀, m, flags, hc₀, hsaved, hreg, -, houtside, hlead⟩ := syscall_entry ht huser a
  rw [hbase] at houtside
  rw [← hbase] at hret
  obtain ⟨m', hmem, hleads⟩ := syscall_invalid ht hsaved hreg hret hnumber
  obtain ⟨c, hc, rfl⟩ := hlead _ hleads
  refine ⟨c₀, _, hc₀, hc, rfl, rfl, rfl, if_neg hkernel, fun x hx hval => ?_⟩
  refine (store32_outside hval).trans ?_
  rw [hmem]
  exact houtside x hx

theorem bad_system_call_eleven : ∃ c₀ m,
    trap (sampleText sampleRoutine) 0x80 0x8048102 (sampleProgram.setReg .eax 11) = some c₀ ∧
    Reaches (sampleText sampleRoutine) c₀ (0x8048102, m) ∧ m.reg .eax = -1 := by
  have hret : ∀ x, Within (0x600000 : StringMachine.Word) 4 x → ¬ Below 0x800000 80 x := by
    intro x
    unfold Below Within
    bv_omega
  have huser : (sampleProgram.setReg .eax 11).cpl = 3 := rfl
  obtain ⟨c₀, m, hc₀, hm, hreg, -⟩ := bad_system_call (sampleText_linked sampleRoutine) huser hret
    (by decide) 0x8048102
  refine ⟨c₀, m, hc₀, hm, ?_⟩
  rw [hreg, Function.update_self]

/-! ## The wrappers -/

/-- A wrapper has come back to its caller `m₀` with result `v`. -/
structure CameBack (m₀ : StackMachine.Machine) (v : StringMachine.Word)
    (m : StackMachine.Machine) : Prop where
  eax : m.reg .eax = v
  esp : m.reg .esp = m₀.reg .esp + 4
  reg : ∀ r ∈ [Reg.ebx, .ebp, .esi, .edi], m.reg r = m₀.reg r
  eflags : m.eflags = m₀.eflags
  cs : m.cs = m₀.cs
  ss : m.ss = m₀.ss

/-- The wrapper's caller with number and arguments in registers. -/
def atCall (m₀ : StackMachine.Machine) (number : ℕ) (a₁ a₂ a₃ : StringMachine.Word) :
    StackMachine.Machine :=
  ((((m₀.push (m₀.reg .ebx)).setReg .eax (BitVec.ofNat 32 number)).setReg .ebx a₁).setReg
    .ecx a₂).setReg .edx a₃

/-- From the wrapper to `int $0x80`. -/
theorem wrapper_leads {number : ℕ} {back a₁ a₂ a₃ : StringMachine.Word} {Q : Config → Prop}
    (hstack : m₀.Stack [back, a₁, a₂, a₃])
    (h : Leads t ((DO_CALL number).drop 6) (atCall m₀ number a₁ a₂ a₃) Q) :
    Leads t (DO_CALL number) m₀ Q := by
  have hlen : 4 * [back, a₁, a₂, a₃].length + 4 ≤ 2 ^ 32 := by norm_num
  have hpushed := (hstack.push hlen (m₀.reg .ebx)).2
  obtain ⟨-, h1, h2, h3, -⟩ := hpushed
  rw [BitVec.add_assoc] at h1
  rw [BitVec.add_assoc, BitVec.add_assoc] at h2
  rw [BitVec.add_assoc, BitVec.add_assoc, BitVec.add_assoc] at h3
  -- the stack pointer stays where `ebx` has been pushed
  exact .label (.pushl (.movl (.load h1 (.load h2 (.load h3 h)))))

/-- And back, with what the wrapper has pushed still in its place. -/
theorem wrapper_returns {number : ℕ} {back a₁ a₂ a₃ v : StringMachine.Word}
    {m : StackMachine.Machine} (hstack : m₀.Stack [back, a₁, a₂, a₃]) (huser : m₀.cpl = 3)
    (hkept : ∀ x, Within (m₀.reg .esp - 4) 8 x →
      (answered t (atCall m₀ number a₁ a₂ a₃) v m).mem x = (atCall m₀ number a₁ a₂ a₃).mem x) :
    Leads t ((DO_CALL number).drop 7) (answered t (atCall m₀ number a₁ a₂ a₃) v m)
      fun c => c.1 = back ∧ CameBack m₀ v c.2 := by
  have hlen : 4 * [back, a₁, a₂, a₃].length + 4 ≤ 2 ^ 32 := by norm_num
  have hpushed := hstack.push hlen (m₀.reg .ebx)
  have htwo : (answered t (atCall m₀ number a₁ a₂ a₃) v m).Stack [m₀.reg .ebx, back] := by
    have hcaller : StackMachine.Holds (atCall m₀ number a₁ a₂ a₃).mem (m₀.reg .esp - 4)
        [m₀.reg .ebx, back] := ⟨hpushed.1, hpushed.2.1, trivial⟩
    exact hcaller.congr (by norm_num) hkept
  have hpop := htwo.pop (r := .ebx) (by decide)
  have hss : (answered t (atCall m₀ number a₁ a₂ a₃) v m).ss = m₀.ss :=
    if_neg (show m₀.cpl ≠ 0 by omega)
  refine .popl (.ret ⟨hpop.top, rfl, ?_, fun r hr => ?_, rfl, rfl, hss⟩)
  · rw [drop_esp, pop_of_ne _ (by decide), drop_esp]
    exact congrArg (· + 4) (BitVec.sub_add_cancel _ 4)
  · rcases List.mem_cons.mp hr with rfl | hr
    · rw [drop_reg _ (by decide), pop_self, htwo.top]
    · simp only [List.mem_cons, List.not_mem_nil, or_false] at hr
      rcases hr with rfl | rfl | rfl <;> rfl

/-- A system call of a program through its wrapper, with no tick on the way back: three words from
the caller's stack become the handler's arguments, the handler runs in the kernel with interrupts
as they were, and if it leaves the wrapper's two words on the program's stack, its result comes
back to the caller, who finds the stack, the flags and the registers that a called function keeps
as they were. -/
theorem system_call (ht : Linked t) {number : ℕ} (hnumber : 1 ≤ number ∧ number ≤ 10)
    {f : StackMachine.Machine → Config} (hcode : t.code (t.sym (.func number)) = some (.routine f))
    {w : StringMachine.Word} (hw : Assembled t w (DO_CALL number)) (huser : m₀.cpl = 3)
    {back a₁ a₂ a₃ : StringMachine.Word} (hstack : m₀.Stack [back, a₁, a₂, a₃])
    (hret : ∀ x, Within (t.sym .ret_val) 4 x → ¬ Below m₀.esp0 80 x)
    (husers : ∀ x, Within (m₀.reg .esp - 4) 8 x →
      ¬ Below m₀.esp0 80 x ∧ ¬ Within (t.sym .ret_val) 4 x) :
    ∃ c, Reaches t (w, m₀) c ∧ c.1 = t.sym (.func number) ∧ c.2.cpl = 0 ∧
      Flag.intf.get c.2.eflags = Flag.intf.get m₀.eflags ∧
      StackMachine.Holds c.2.mem (c.2.reg .esp + 4) [a₁, a₂, a₃] ∧
      (KeepsConvention 3 f c.2 →
        (∀ x, Within (m₀.reg .esp - 4) 8 x → (f c.2).2.mem x = c.2.mem x) →
        ∃ m, Reaches t c (back, m) ∧ CameBack m₀ ((f c.2).2.reg .eax) m) := by
  have hbase : (atCall m₀ number a₁ a₂ a₃).trapBase = m₀.esp0 :=
    if_neg (show m₀.cpl ≠ 0 by omega)
  have huser' : (atCall m₀ number a₁ a₂ a₃).cpl = 3 := huser
  have hret' : ∀ x, Within (t.sym .ret_val) 4 x →
      ¬ Below (atCall m₀ number a₁ a₂ a₃).trapBase 80 x := by rwa [hbase]
  -- up to the call of the handler, for any place that `int` lies at
  have hint : Leads t ((DO_CALL number).drop 6) (atCall m₀ number a₁ a₂ a₃) fun c =>
      ∃ b, Assembled t b ((DO_CALL number).drop 7) ∧
        SyscallCalled t number f (atCall m₀ number a₁ a₂ a₃) b c := by
    intro p hp
    obtain ⟨n, hn, hb⟩ := hp
    obtain ⟨c₀, m, flags, hc₀, hsaved, hreg, hintf, houtside, hlead⟩ :=
      syscall_entry ht huser' (p + n)
    obtain ⟨c, hc, hcalled⟩ := hlead _
      (syscall_handler ht hsaved hreg hintf houtside hret' rfl hnumber hcode)
    have hstep : StackMachine.step t (p, atCall m₀ number a₁ a₂ a₃) = some c₀ := by
      rw [StackMachine.step, hn]
      exact hc₀
    exact ⟨c, (Reaches.of_step hstep).trans hc, p + n, hb, hcalled⟩
  obtain ⟨c, hc, b, hb, hcalled⟩ := wrapper_leads hstack hint w hw
  refine ⟨c, hc, hcalled.at_handler, hcalled.kernel, hcalled.intf, hcalled.arguments, ?_⟩
  intro hf hkept
  have hmem : ∀ x, Within (m₀.reg .esp - 4) 8 x →
      (answered t (atCall m₀ number a₁ a₂ a₃) ((f c.2).2.reg .eax) (f c.2).2).mem x =
        (atCall m₀ number a₁ a₂ a₃).mem x := by
    intro x hx
    obtain ⟨hkernel, hval⟩ := husers x hx
    refine (store32_outside hval).trans ((hkept x hx).trans (hcalled.outside x ?_))
    rwa [hbase]
  obtain ⟨c', hc', hback, hcame⟩ := wrapper_returns hstack huser hmem b hb
  refine ⟨c'.2, ?_, hcame⟩
  rw [← hback]
  exact (hcalled.answers hf).trans hc'

theorem system_call_read : ∃ m,
    Reaches (sampleText sampleRoutine) (0x8048000, sampleProgram) (0, m) ∧ m.reg .eax = 7 := by
  have hret : ∀ x, Within (0x600000 : StringMachine.Word) 4 x → ¬ Below 0x800000 80 x := by
    intro x
    unfold Below Within
    bv_omega
  have husers : ∀ x, Within (sampleProgram.reg .esp - 4) 8 x →
      ¬ Below sampleProgram.esp0 80 x ∧ ¬ Within (0x600000 : StringMachine.Word) 4 x := by
    intro x
    rw [show sampleProgram.reg .esp = 0x83fff00 from rfl,
      show sampleProgram.esp0 = 0x800000 from rfl]
    unfold Below Within
    bv_omega
  have huser : sampleProgram.cpl = 3 := rfl
  have hstack : sampleProgram.Stack [0, 0, 0, 0] := ⟨rfl, rfl, rfl, rfl, trivial⟩
  have hnumber : 1 ≤ 3 ∧ 3 ≤ 10 := by decide
  obtain ⟨c, hc, -, -, -, -, hback⟩ := system_call (sampleText_linked sampleRoutine) hnumber rfl
    (sampleText_wrapper sampleRoutine) huser hstack hret husers
  obtain ⟨m, hm, hcame⟩ := hback (sampleRoutine_returns 3 c.2) fun x _ => rfl
  exact ⟨m, hc.trans hm, hcame.eax⟩

end

end Kernel391
