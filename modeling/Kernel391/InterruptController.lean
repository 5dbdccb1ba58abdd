import Kernel391.Lib.InterruptControllers
import Kernel391.Lib.TransitionSystem
import Kernel391.Traps
import Mathlib.Data.List.Find

/-!
# Interrupts from their line to their end (`i8259.c`, `i8259.h`)

The driver on a pair of controllers, and the protocol it plays with them: devices request
interrupts at any time, the processor acknowledges one as soon as no handler is before its
`send_eoi`, the handler sends the end of the interrupt it is for, and the kernel goes on setting
up its devices in between.

* The order of the lines is that of their priorities, and no request is lost: what waits is
  delivered, unless its line is masked (`interrupts_delivered`). The masks are the kernel's, save
  that those of the slave are all clear from `i8259_init` up to `rtc_init`: the initialisation
  words undo the mask written before them.
* From then on every interrupt that is delivered has a handler, whose `send_eoi` ends it
  (`interrupts_handled`).
-/

namespace Kernel391

open Pic8259 TransitionSystem

/-! ## The driver -/

def MASTER_8259_PORT : ℕ := 0x20
def SLAVE_8259_PORT : ℕ := 0xA0
def MASTER_8259_DATA : ℕ := MASTER_8259_PORT + 1
def SLAVE_8259_DATA : ℕ := SLAVE_8259_PORT + 1
def ICW1 : BitVec 8 := 0x11
def ICW2_MASTER : BitVec 8 := 0x20
def ICW2_SLAVE : BitVec 8 := 0x28
def ICW3_MASTER : BitVec 8 := 0x04
def ICW3_SLAVE : BitVec 8 := 0x02
def ICW4 : BitVec 8 := 0x01
def EOI : BitVec 8 := 0x60
def KEYBOARD_IRQ : ℕ := 1
def PIT_IRQ_NUM : ℕ := 0
def RTC_IRQ_NUM : ℕ := 8

/-- The controllers, and the driver's two variables. -/
structure PicDriver where
  pics : Pics
  master_mask : BitVec 8
  slave_mask : BitVec 8
deriving DecidableEq, Repr

namespace PicDriver

def outb (v : BitVec 8) (port : ℕ) (d : PicDriver) : PicDriver :=
  { d with pics := d.pics.outb v port }

def enable_irq (irq_num : ℕ) (d : PicDriver) : PicDriver :=
  if irq_num ≤ 7 then
    let master_mask := d.master_mask &&& ~~~((1 : BitVec 8) <<< irq_num)
    { d with master_mask := master_mask }.outb master_mask MASTER_8259_DATA
  else if irq_num ≤ 15 then
    let slave_mask := d.slave_mask &&& ~~~((1 : BitVec 8) <<< (irq_num - 8))
    { d with slave_mask := slave_mask }.outb slave_mask SLAVE_8259_DATA
  else d

def disable_irq (irq_num : ℕ) (d : PicDriver) : PicDriver :=
  if irq_num ≤ 7 then
    let master_mask := d.master_mask ||| (1 : BitVec 8) <<< irq_num
    { d with master_mask := master_mask }.outb master_mask MASTER_8259_DATA
  else if irq_num ≤ 15 then
    let slave_mask := d.slave_mask ||| (1 : BitVec 8) <<< (irq_num - 8)
    { d with slave_mask := slave_mask }.outb slave_mask SLAVE_8259_DATA
  else d

def send_eoi (irq_num : ℕ) (d : PicDriver) : PicDriver :=
  if irq_num ≤ 7 then d.outb (EOI ||| BitVec.ofNat 8 irq_num) MASTER_8259_PORT
  else
    (d.outb (EOI ||| BitVec.ofNat 8 (irq_num - 8)) SLAVE_8259_PORT).outb (EOI ||| 2)
      MASTER_8259_PORT

def i8259_init (d : PicDriver) : PicDriver :=
  let masked := (d.outb d.master_mask MASTER_8259_DATA).outb d.slave_mask SLAVE_8259_DATA
  let master := (((masked.outb ICW1 MASTER_8259_PORT).outb ICW2_MASTER MASTER_8259_DATA).outb
    ICW3_MASTER MASTER_8259_DATA).outb ICW4 MASTER_8259_DATA
  let slave := (((master.outb ICW1 SLAVE_8259_PORT).outb ICW2_SLAVE SLAVE_8259_DATA).outb
    ICW3_SLAVE SLAVE_8259_DATA).outb ICW4 SLAVE_8259_DATA
  slave.enable_irq ICW3_SLAVE.toNat

end PicDriver

/-! ## The protocol -/

/-- What `entry` calls of the driver after `i8259_init`. -/
inductive BootCall
  | enable_irq (irq_num : ℕ)
  | disable_irq (irq_num : ℕ)
deriving DecidableEq, Repr

def BootCall.call (d : PicDriver) : BootCall → PicDriver
  | .enable_irq irq_num => d.enable_irq irq_num
  | .disable_irq irq_num => d.disable_irq irq_num

/-- Those of `init_keyboard`, `rtc_init` and `pit_init`. -/
def bootCalls : List BootCall :=
  [.enable_irq KEYBOARD_IRQ, .disable_irq RTC_IRQ_NUM, .enable_irq RTC_IRQ_NUM,
    .enable_irq PIT_IRQ_NUM]

/-- The argument of a handler's `send_eoi`. -/
def eoiOf : Label → Option ℕ
  | .pit_interrupt_handler => some PIT_IRQ_NUM
  | .keyboard_interrupt_handler => some KEYBOARD_IRQ
  | .rtc_interrupt_handler => some RTC_IRQ_NUM
  | _ => none

structure IrqState where
  driver : PicDriver
  /-- The vector whose handler has been entered and not yet sent the end of its interrupt. -/
  handling : Option ℕ
  /-- How many of `bootCalls` have been made. -/
  booted : ℕ
deriving DecidableEq, Repr

inductive IrqEvent where
  /-- A device requests an interrupt at its line. -/
  | raise (n : ℕ)
  /-- The processor acknowledges one; it does not before the handler at work sends its end. -/
  | interrupt
  | eoi
  | boot

namespace IrqState

def step (s : IrqState) : IrqEvent → Option IrqState
  | .raise n =>
    if n < 16 then some { s with driver := { s.driver with pics := s.driver.pics.raise n } }
    else none
  | .interrupt =>
    if s.handling = none then
      s.driver.pics.acknowledge.map fun r =>
        { s with driver := { s.driver with pics := r.2 }, handling := some r.1 }
    else none
  | .eoi =>
    s.handling.bind fun vec => (devices.find? fun d => d.1 = vec).bind fun d =>
      (eoiOf d.2.2).map fun irq =>
        { s with driver := s.driver.send_eoi irq, handling := none }
  | .boot =>
    if s.handling = none then
      bootCalls[s.booted]?.map fun c =>
        { s with driver := c.call s.driver, booted := s.booted + 1 }
    else none

end IrqState

/-- The lines that have requested and not been delivered since. -/
def noteRequest (s : IrqState) (e : IrqEvent) (w : ℕ → Bool) : ℕ → Bool :=
  match e with
  | .raise n => if n = 2 then w else Function.update w n true
  | .interrupt =>
    match s.driver.pics.acknowledge with
    | some (vec, _) => Function.update w (vec - 0x20) false
    | none => w
  | _ => w

/-- From `i8259_init` on controllers in any state. -/
def irqSystem : System IrqState IrqEvent where
  init s := ∃ pics, s =
    { driver := PicDriver.i8259_init { pics := pics, master_mask := 0xff, slave_mask := 0xff }
      handling := none
      booted := 0 }
  step := IrqState.step

/-- With what waits at the lines. -/
def requestSystem : System (IrqState × (ℕ → Bool)) IrqEvent :=
  irqSystem.withHistory (fun _ w => ∀ n, w n = false) noteRequest

/-! ## The driver's calls -/

/-- The controllers after `i8259_init`: the slave's mask is clear, whatever the driver wrote. -/
def initialised : Pics where
  master := {
    imr := 0xfb, irr := 0, isr := 0, base := 0x20, cascade := 4, auto := false, needs4 := true
    phase := .ready }
  slave := {
    imr := 0, irr := 0, isr := 0, base := 0x28, cascade := 2, auto := false, needs4 := true
    phase := .ready }

theorem i8259_init_eq (pics : Pics) :
    PicDriver.i8259_init { pics := pics, master_mask := 0xff, slave_mask := 0xff } =
      { pics := initialised, master_mask := 0xfb, slave_mask := 0xff } := by
  have hmaster := init_words (pics.master.data 0xff) 0x20 4
  have hslave := init_words (pics.slave.data 0xff) 0x28 2
  show PicDriver.enable_irq 2
    { pics := {
        master := ((((pics.master.data 0xff).command 0x11).data 0x20).data 4).data 0x01
        slave := ((((pics.slave.data 0xff).command 0x11).data 0x28).data 2).data 0x01 }
      master_mask := 0xff
      slave_mask := 0xff } = _
  rw [hmaster, hslave]
  rfl

/-- The driver with a new mask for the master, in its variable and in the controller. -/
def PicDriver.maskMaster (v : BitVec 8) (d : PicDriver) : PicDriver :=
  { d with
    pics := { d.pics with master := { d.pics.master with imr := v } }
    master_mask := v }

def PicDriver.maskSlave (v : BitVec 8) (d : PicDriver) : PicDriver :=
  { d with
    pics := { d.pics with slave := { d.pics.slave with imr := v } }
    slave_mask := v }

section
variable {d : PicDriver} {irq_num : ℕ}

theorem enable_irq_master (h : Programmed d.pics) (hirq : irq_num ≤ 7) :
    d.enable_irq irq_num = d.maskMaster (d.master_mask &&& ~~~((1 : BitVec 8) <<< irq_num)) := by
  have hdata := data_ready h.master_ready (d.master_mask &&& ~~~((1 : BitVec 8) <<< irq_num))
  unfold PicDriver.enable_irq PicDriver.maskMaster
  rw [if_pos hirq, ← hdata]
  rfl

theorem enable_irq_slave (h : Programmed d.pics) (hirq : 7 < irq_num ∧ irq_num ≤ 15) :
    d.enable_irq irq_num =
      d.maskSlave (d.slave_mask &&& ~~~((1 : BitVec 8) <<< (irq_num - 8))) := by
  have hdata := data_ready h.slave_ready (d.slave_mask &&& ~~~((1 : BitVec 8) <<< (irq_num - 8)))
  unfold PicDriver.enable_irq PicDriver.maskSlave
  rw [if_neg (by omega), if_pos hirq.2, ← hdata]
  rfl

theorem disable_irq_slave (h : Programmed d.pics) (hirq : 7 < irq_num ∧ irq_num ≤ 15) :
    d.disable_irq irq_num = d.maskSlave (d.slave_mask ||| (1 : BitVec 8) <<< (irq_num - 8)) := by
  have hdata := data_ready h.slave_ready (d.slave_mask ||| (1 : BitVec 8) <<< (irq_num - 8))
  unfold PicDriver.disable_irq PicDriver.maskSlave
  rw [if_neg (by omega), if_pos hirq.2, ← hdata]
  rfl

/-- The driver after the end of one interrupt at each controller it went through. -/
theorem send_eoi_master (hirq : irq_num ≤ 7) :
    d.send_eoi irq_num = { d with pics := { d.pics with master := { d.pics.master with
      isr := d.pics.master.isr &&& ~~~((1 : BitVec 8) <<< irq_num) } } } := by
  have hcommand := command_eoi (show irq_num < 8 by omega) d.pics.master
  unfold PicDriver.send_eoi
  rw [if_pos hirq, ← hcommand]
  rfl

theorem send_eoi_slave (hirq : 7 < irq_num ∧ irq_num ≤ 15) :
    d.send_eoi irq_num = { d with pics := {
      master := { d.pics.master with isr := d.pics.master.isr &&& ~~~((1 : BitVec 8) <<< 2) }
      slave := { d.pics.slave with
        isr := d.pics.slave.isr &&& ~~~((1 : BitVec 8) <<< (irq_num - 8)) } } } := by
  have hslave := command_eoi (show irq_num - 8 < 8 by omega) d.pics.slave
  have hmaster := command_eoi (show 2 < 8 by decide) d.pics.master
  unfold PicDriver.send_eoi
  rw [if_neg (by omega), ← hslave, ← hmaster]
  rfl

end

/-- Every device's handler ends the interrupt of its own line. -/
theorem eoi_line {irq : ℕ} : ∀ d ∈ devices, eoiOf d.2.2 = some irq → d.1 = 0x20 + irq := by
  intro d hd hirq
  simp only [devices, List.mem_cons, List.not_mem_nil, or_false] at hd
  rcases hd with rfl | rfl | rfl
  all_goals
    obtain rfl := Option.some.inj hirq
    rfl

/-! ## What holds between them -/

/-- The kernel's masks after the first calls. -/
def masksAt : ℕ → BitVec 8 × BitVec 8
  | 0 => (0xfb, 0xff)
  | 1 | 2 => (0xf9, 0xff)
  | 3 => (0xf9, 0xfe)
  | _ => (0xf8, 0xfe)

/-- The interrupt at work, if any, is in service and no other is. -/
def InService (pics : Pics) (handling : Option ℕ) : Prop :=
  match handling with
  | none => Idle pics
  | some vec => ∃ n < 16, n ≠ 2 ∧ vec = 0x20 + n ∧
      pics.master.isr = (1 : BitVec 8) <<< (if n < 8 then n else 2) ∧
      pics.slave.isr = if n < 8 then 0 else (1 : BitVec 8) <<< (n - 8)

/-- Line `n` gets through: by the kernel's masks, except that the slave has none at first. -/
def IrqState.enabled (s : IrqState) (n : ℕ) : Bool :=
  if n < 8 then !s.driver.master_mask.getLsbD n
  else s.booted < 2 || !s.driver.slave_mask.getLsbD (n - 8)

structure IrqOk (s : IrqState) (w : ℕ → Bool) : Prop where
  programmed : Programmed s.driver.pics
  waiting : ∀ n < 16, s.driver.pics.line n = w n
  no_device : w 2 = false
  masks : (s.driver.master_mask, s.driver.slave_mask) = masksAt s.booted
  master_mask : s.driver.pics.master.imr = s.driver.master_mask
  slave_mask : s.driver.pics.slave.imr = if s.booted < 2 then 0 else s.driver.slave_mask
  in_service : InService s.driver.pics s.handling
  handled : 2 ≤ s.booted → ∀ vec ∈ s.handling, vec ∈ devices.map Prod.fst

namespace IrqOk

variable {s s' : IrqState} {w : ℕ → Bool}

theorem start (pics : Pics) : IrqOk
    { driver := PicDriver.i8259_init { pics := pics, master_mask := 0xff, slave_mask := 0xff }
      handling := none
      booted := 0 } fun _ => false := by
  rw [i8259_init_eq]
  exact {
    programmed := ⟨rfl, rfl, rfl, rfl, rfl, rfl, rfl, rfl⟩
    waiting := by
      intro n hn
      interval_cases n <;> rfl
    no_device := rfl
    masks := rfl
    master_mask := rfl
    slave_mask := rfl
    in_service := ⟨rfl, rfl⟩
    handled := nofun }

theorem raise {n : ℕ} (h : IrqOk s w) (hn : n < 16) :
    IrqOk { s with driver := { s.driver with pics := s.driver.pics.raise n } }
      (if n = 2 then w else Function.update w n true) := by
  by_cases h2 : n = 2
  · have hsame : s.driver.pics.raise n = s.driver.pics := if_pos h2
    rw [hsame, if_pos h2]
    exact h
  · rw [if_neg h2]
    have hkeeps : (s.driver.pics.raise n).master.imr = s.driver.pics.master.imr ∧
        (s.driver.pics.raise n).slave.imr = s.driver.pics.slave.imr ∧
        (s.driver.pics.raise n).master.isr = s.driver.pics.master.isr ∧
        (s.driver.pics.raise n).slave.isr = s.driver.pics.slave.isr := by
      unfold Pics.raise
      split_ifs <;> exact ⟨rfl, rfl, rfl, rfl⟩
    obtain ⟨hmaster, hslave, hisr, hisr'⟩ := hkeeps
    refine ⟨programmed_raise h.programmed, fun m hm => ?_, ?_, h.masks, hmaster.trans h.master_mask,
      hslave.trans h.slave_mask, ?_, h.handled⟩
    · rw [line_raise hn hm h2, Function.update_apply, h.waiting m hm]
      by_cases hmn : m = n <;> simp [hmn]
    · rw [Function.update_of_ne (Ne.symm h2)]
      exact h.no_device
    · have hservice := h.in_service
      unfold InService at hservice ⊢
      dsimp only
      cases hh : s.handling with
      | none =>
        rw [hh] at hservice
        exact ⟨hisr.trans hservice.master, hisr'.trans hservice.slave⟩
      | some vec =>
        rw [hh] at hservice
        dsimp only at hservice ⊢
        rw [hisr, hisr']
        exact hservice

/-- Line by line, the controllers ask for what waits and the kernel has not masked. -/
theorem asks_eq (h : IrqOk s w) {n : ℕ} (hn : n < 16) :
    s.driver.pics.asks n = (w n && s.enabled n) := by
  have hmasks := h.masks
  have hcascade : s.driver.master_mask.getLsbD 2 = false := by
    have hall : ∀ k, (masksAt k).1.getLsbD 2 = false := by
      intro k
      match k with
      | 0 | 1 | 2 | 3 => rfl
      | k + 4 => exact (rfl : (0xf8 : BitVec 8).getLsbD 2 = false)
    rw [show s.driver.master_mask = (masksAt s.booted).1 from congrArg Prod.fst hmasks]
    exact hall s.booted
  unfold Pics.asks Pics.masked IrqState.enabled
  rw [h.waiting n hn, h.master_mask, h.slave_mask, hcascade, Bool.or_false]
  by_cases hn8 : n < 8
  · simp [hn8]
  · by_cases hboot : s.booted < 2 <;> simp [hn8, hboot]

/-- Once the slave has its mask, no line is enabled whose vector has no handler. -/
theorem enabled_handled (h : IrqOk s w) (hboot : 2 ≤ s.booted) {n : ℕ} (hn : n < 16)
    (h2 : n ≠ 2) (hen : s.enabled n = true) : 0x20 + n ∈ devices.map Prod.fst := by
  have hmasks := h.masks
  unfold IrqState.enabled at hen
  rw [decide_eq_false (by omega), Bool.false_or] at hen
  obtain ⟨k, hk⟩ := Nat.exists_eq_add_of_le hboot
  rw [hk] at hmasks
  generalize s.driver.master_mask = mm, s.driver.slave_mask = sm at hmasks hen
  match k with
  | 0 | 1 | k + 2 =>
    rw [Nat.add_comm] at hmasks
    obtain ⟨rfl, rfl⟩ := Prod.mk.inj hmasks
    interval_cases n <;> first | decide | exact absurd hen (by decide) | exact absurd rfl h2

theorem boot_master {v : BitVec 8} (h : IrqOk s w) (hidle : s.handling = none)
    (hmasks : (v, s.driver.slave_mask) = masksAt (s.booted + 1)) (hboot : s.booted ≠ 1) :
    IrqOk { s with driver := s.driver.maskMaster v, booted := s.booted + 1 } w where
  programmed := { h.programmed with }
  waiting := h.waiting
  no_device := h.no_device
  masks := hmasks
  master_mask := rfl
  slave_mask := by
    refine h.slave_mask.trans ?_
    by_cases hlt : s.booted < 2
    · rw [if_pos hlt, if_pos (by dsimp only; omega)]
    · rw [if_neg hlt, if_neg (by dsimp only; omega)]
      rfl
  in_service := by
    have hservice := h.in_service
    rw [hidle] at hservice
    show InService _ s.handling
    rw [hidle]
    exact ⟨hservice.master, hservice.slave⟩
  handled _ vec hvec := by
    rw [show s.handling = none from hidle] at hvec
    cases hvec

theorem boot_slave {v : BitVec 8} (h : IrqOk s w) (hidle : s.handling = none)
    (hmasks : (s.driver.master_mask, v) = masksAt (s.booted + 1)) (hboot : 1 ≤ s.booted) :
    IrqOk { s with driver := s.driver.maskSlave v, booted := s.booted + 1 } w where
  programmed := { h.programmed with }
  waiting := h.waiting
  no_device := h.no_device
  masks := hmasks
  master_mask := h.master_mask
  slave_mask := by
    rw [if_neg (by dsimp only; omega)]
    rfl
  in_service := by
    have hservice := h.in_service
    rw [hidle] at hservice
    show InService _ s.handling
    rw [hidle]
    exact ⟨hservice.master, hservice.slave⟩
  handled _ vec hvec := by
    rw [show s.handling = none from hidle] at hvec
    cases hvec

/-- One call of the kernel's while it sets up its devices. -/
theorem boot {c : BootCall} (h : IrqOk s w) (hidle : s.handling = none)
    (hc : bootCalls[s.booted]? = some c) :
    IrqOk { s with driver := c.call s.driver, booted := s.booted + 1 } w := by
  have hlt : s.booted < 4 := (List.getElem?_eq_some_iff.mp hc).1
  have hmasks := h.masks
  obtain h0 | h1 | h2 | h3 : s.booted = 0 ∨ s.booted = 1 ∨ s.booted = 2 ∨ s.booted = 3 := by omega
  · rw [h0] at hc hmasks
    cases hc
    obtain ⟨hmaster, hslave⟩ := Prod.mk.inj hmasks
    rw [BootCall.call, enable_irq_master h.programmed (by decide), hmaster]
    exact h.boot_master hidle (by rw [hslave, h0]; rfl) (by omega)
  · rw [h1] at hc hmasks
    cases hc
    obtain ⟨hmaster, hslave⟩ := Prod.mk.inj hmasks
    rw [BootCall.call, disable_irq_slave h.programmed (by decide), hslave]
    exact h.boot_slave hidle (by rw [hmaster, h1]; rfl) (by omega)
  · rw [h2] at hc hmasks
    cases hc
    obtain ⟨hmaster, hslave⟩ := Prod.mk.inj hmasks
    rw [BootCall.call, enable_irq_slave h.programmed (by decide), hslave]
    exact h.boot_slave hidle (by rw [hmaster, h2]; rfl) (by omega)
  · rw [h3] at hc hmasks
    cases hc
    obtain ⟨hmaster, hslave⟩ := Prod.mk.inj hmasks
    rw [BootCall.call, enable_irq_master h.programmed (by decide), hmaster]
    exact h.boot_master hidle (by rw [hslave, h3]; rfl) (by omega)

/-- What the processor gets when no handler is at work. -/
theorem acknowledge_eq (h : IrqOk s w) (hidle : s.handling = none) :
    s.driver.pics.acknowledge = (lines.find? fun n => w n && s.enabled n).map fun n =>
      (0x20 + n, s.driver.pics.served n) := by
  have hservice := h.in_service
  rw [hidle] at hservice
  have h2 : s.driver.pics.master.irr.getLsbD 2 = false :=
    (h.waiting 2 (by decide)).trans h.no_device
  have hsame : ∀ n ∈ lines, s.driver.pics.asks n = (w n && s.enabled n) :=
    fun n hn => h.asks_eq (lines_lt n hn).1
  rw [Pic8259.acknowledge_eq h.programmed hservice h2, List.find?_congr hsame]

theorem interrupt {vec : ℕ} {pics : Pics} (h : IrqOk s w) (hidle : s.handling = none)
    (hack : s.driver.pics.acknowledge = some (vec, pics)) :
    IrqOk { s with driver := { s.driver with pics := pics }, handling := some vec }
      (Function.update w (vec - 0x20) false) := by
  have hservice := h.in_service
  rw [hidle] at hservice
  rw [h.acknowledge_eq hidle, Option.map_eq_some_iff] at hack
  obtain ⟨n, hfind, heq⟩ := hack
  obtain ⟨rfl, rfl⟩ := Prod.mk.inj heq
  obtain ⟨hn, h2⟩ := lines_lt n (List.mem_of_find?_eq_some hfind)
  have hasked := List.find?_some hfind
  rw [Bool.and_eq_true] at hasked
  have hline2 : s.driver.pics.line 2 = false := (h.waiting 2 (by decide)).trans h.no_device
  have hkeeps : (s.driver.pics.served n).master.imr = s.driver.pics.master.imr ∧
      (s.driver.pics.served n).slave.imr = s.driver.pics.slave.imr := by
    unfold Pics.served
    split_ifs <;> exact ⟨rfl, rfl⟩
  refine ⟨programmed_served h.programmed, fun m hm => ?_, ?_, h.masks,
    hkeeps.1.trans h.master_mask, hkeeps.2.trans h.slave_mask, ?_, fun hboot v hv => ?_⟩
  · rw [line_served hn hm hline2, h.waiting m hm, Nat.add_sub_cancel_left, Function.update_apply]
    by_cases hmn : m = n <;> simp [hmn]
  · rw [Nat.add_sub_cancel_left, Function.update_of_ne (Ne.symm h2)]
    exact h.no_device
  · refine ⟨n, hn, h2, rfl, ?_⟩
    have hmaster := h.programmed.master_manual
    have hslave := h.programmed.slave_manual
    unfold Pics.served Pic.serve
    by_cases hn8 : n < 8
    · simp [hn8, hmaster, hservice.master, hservice.slave]
    · simp [hn8, hmaster, hslave, hservice.master, hservice.slave]
  · cases hv
    exact h.enabled_handled hboot hn h2 hasked.2

/-- The end of the interrupt at work. -/
theorem eoi {vec : ℕ} {d : ℕ × Label × Label} {irq : ℕ} (h : IrqOk s w)
    (hvec : s.handling = some vec) (hd : devices.find? (fun d => d.1 = vec) = some d)
    (hirq : eoiOf d.2.2 = some irq) :
    IrqOk { s with driver := s.driver.send_eoi irq, handling := none } w := by
  have hservice := h.in_service
  rw [hvec] at hservice
  obtain ⟨n, hn, h2, rfl, hmaster, hslave⟩ := hservice
  -- the handler's own line is the one in service
  have hline : irq = n := by
    have hfound := List.find?_some hd
    have heq : d.1 = 0x20 + n := of_decide_eq_true hfound
    have hown := eoi_line d (List.mem_of_find?_eq_some hd) hirq
    omega
  subst hline
  by_cases hirq8 : irq < 8
  · rw [if_pos hirq8] at hmaster hslave
    rw [send_eoi_master (by omega)]
    exact {
      programmed := { h.programmed with }
      waiting := h.waiting
      no_device := h.no_device
      masks := h.masks
      master_mask := h.master_mask
      slave_mask := h.slave_mask
      in_service := ⟨by simp [hmaster], hslave⟩
      handled := fun _ _ hv => by cases hv }
  · rw [if_neg hirq8] at hmaster hslave
    rw [send_eoi_slave (by omega)]
    exact {
      programmed := { h.programmed with }
      waiting := h.waiting
      no_device := h.no_device
      masks := h.masks
      master_mask := h.master_mask
      slave_mask := h.slave_mask
      in_service := ⟨by simp [hmaster], by simp [hslave]⟩
      handled := fun _ _ hv => by cases hv }

theorem step {e : IrqEvent} (h : IrqOk s w) (hs : s.step e = some s') :
    IrqOk s' (noteRequest s e w) := by
  cases e with
  | raise n =>
    unfold IrqState.step at hs
    dsimp only at hs
    split_ifs at hs with hn
    cases hs
    exact h.raise hn
  | interrupt =>
    unfold IrqState.step at hs
    dsimp only at hs
    split_ifs at hs with hidle
    obtain ⟨⟨vec, pics⟩, hack, rfl⟩ := Option.map_eq_some_iff.mp hs
    unfold noteRequest
    dsimp only
    rw [hack]
    exact h.interrupt hidle hack
  | eoi =>
    unfold IrqState.step at hs
    obtain ⟨vec, hvec, hs⟩ := Option.bind_eq_some_iff.mp hs
    obtain ⟨d, hd, hs⟩ := Option.bind_eq_some_iff.mp hs
    obtain ⟨irq, hirq, rfl⟩ := Option.map_eq_some_iff.mp hs
    exact h.eoi hvec hd hirq
  | boot =>
    unfold IrqState.step at hs
    dsimp only at hs
    split_ifs at hs with hidle
    obtain ⟨c, hc, rfl⟩ := Option.map_eq_some_iff.mp hs
    exact h.boot hidle hc

end IrqOk

/-! ## Runs -/

theorem irqOk_of_reachable {p : IrqState × (ℕ → Bool)} (h : requestSystem.Reachable p) :
    IrqOk p.1 p.2 := by
  refine System.ReachableWhere.invariant (P := fun p => IrqOk p.1 p.2) h (fun p h0 => ?_)
    fun p e p' _ hok _ hstep => ?_
  · obtain ⟨⟨pics, hs⟩, hw⟩ := h0
    rw [hs, show p.2 = fun _ => false from funext hw]
    exact .start pics
  · obtain ⟨hs, hw⟩ := System.withHistory_step_iff.mp hstep
    rw [hw]
    exact hok.step hs

/-- In every run, whenever no handler is before its `send_eoi`, the processor gets the first
line that has requested and not been delivered since, among those that the kernel has enabled:
in the order of the priorities, and with the vector of its line. The slave's lines are all
enabled, whatever its mask says, up to the first call of `rtc_init`. -/
theorem interrupts_delivered {s : IrqState} {w : ℕ → Bool} (h : requestSystem.Reachable (s, w))
    (hidle : s.handling = none) :
    s.driver.pics.acknowledge.map Prod.fst =
      (lines.find? fun n => w n && s.enabled n).map (0x20 + ·) := by
  rw [(irqOk_of_reachable h).acknowledge_eq hidle, Option.map_map]
  rfl

def initialState : IrqState where
  driver := { pics := initialised, master_mask := 0xfb, slave_mask := 0xff }
  handling := none
  booted := 0

theorem requestSystem_init : requestSystem.init (initialState, fun _ => false) :=
  ⟨⟨initialised, by rw [i8259_init_eq]; rfl⟩, fun _ => rfl⟩

/-- A mouse at line 12 gets through before `rtc_init`, though the driver has masked it, and
although its vector has no handler. -/
theorem interrupts_delivered_mouse : ∃ s w, requestSystem.Reachable (s, w) ∧
    s.driver.slave_mask = 0xff ∧ handlerOf 0x2c = none ∧
    s.driver.pics.acknowledge.map Prod.fst = some 0x2c := by
  have hrun : (requestSystem.runFrom (initialState, fun _ => false) [.raise 12]).any
      (fun p => decide (p.1.handling = none ∧ p.1.driver.slave_mask = 0xff ∧
        (lines.find? fun n => p.2 n && p.1.enabled n) = some 12)) = true := by
    decide +kernel
  obtain ⟨⟨s, w⟩, hreach, hidle, hmask, hfirst⟩ :=
    System.Reachable.exists_of_run requestSystem_init _ hrun
  refine ⟨s, w, hreach, hmask, by decide, ?_⟩
  rw [interrupts_delivered hreach hidle, hfirst]
  rfl

/-- In every run, once `rtc_init` has written the slave's mask, an interrupt that is delivered
has a handler; its `send_eoi` ends that interrupt, so that nothing is in service any more. -/
theorem interrupts_handled {s : IrqState} {w : ℕ → Bool} (h : requestSystem.Reachable (s, w))
    (hboot : 2 ≤ s.booted) {vec : ℕ} (hvec : s.handling = some vec) :
    vec ∈ devices.map Prod.fst ∧
      ∃ s', s.step .eoi = some s' ∧ s'.handling = none ∧ Idle s'.driver.pics := by
  have hok := irqOk_of_reachable h
  have hdev := hok.handled hboot vec hvec
  have heoi : ∃ s', s.step .eoi = some s' ∧ s'.handling = none := by
    simp only [devices, List.map_cons, List.map_nil, List.mem_cons, List.not_mem_nil,
      or_false] at hdev
    rcases hdev with rfl | rfl | rfl
    all_goals
      unfold IrqState.step
      rw [hvec]
      exact ⟨_, rfl, rfl⟩
  obtain ⟨s', hs, hnone⟩ := heoi
  have hservice := (hok.step hs).in_service
  rw [hnone] at hservice
  exact ⟨hdev, s', hs, hnone, hservice⟩

/-- The clock, through both controllers. -/
theorem interrupts_handled_clock : ∃ s w, requestSystem.Reachable (s, w) ∧
    s.handling = some 40 ∧
    ∃ s', s.step .eoi = some s' ∧ s'.handling = none ∧ Idle s'.driver.pics := by
  have hrun : (requestSystem.runFrom (initialState, fun _ => false)
      [.boot, .boot, .boot, .raise 8, .interrupt]).any (fun p => decide
        (2 ≤ p.1.booted ∧ p.1.handling = some 40)) = true := by
    decide +kernel
  obtain ⟨⟨s, w⟩, hreach, hboot, hvec⟩ :=
    System.Reachable.exists_of_run requestSystem_init _ hrun
  exact ⟨s, w, hreach, hvec, (interrupts_handled hreach hboot hvec).2⟩

end Kernel391
