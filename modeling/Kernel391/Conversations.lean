import Kernel391.UserPrograms
import Mathlib.Data.List.TakeWhile

/-!
# Programs that talk with a user

What a user sees of a program is what it prints, the lines it reads and the commands it has
executed (`UserEvent`). The program may wait for ever: for a line, or for a program it has
started. So the statements about such programs are about every moment of a run; there is one
rule for each call (`safe_puts`, `safe_read_line`, `safe_execute`).
-/

namespace Kernel391

open Programs TransitionSystem Words

/-! ## Strings -/

/-- The string in memory that holds some bytes ends at the first NUL of them. -/
theorem HoldsBytes.text_takeWhile {s : Bytes} {bytes : List UInt8} (h : HoldsBytes s bytes)
    (hlen : bytes.length < addressSpace) : text s = bytes.takeWhile (· ≠ 0) := by
  have hsplit := List.takeWhile_append_dropWhile (p := fun b : UInt8 => decide (b ≠ 0)) (l := bytes)
  generalize htake : bytes.takeWhile (fun b => decide (b ≠ 0)) = front at hsplit ⊢
  generalize hdrop : bytes.dropWhile (fun b => decide (b ≠ 0)) = rest at hsplit
  have hfront : front.length ≤ bytes.length := by
    rw [← hsplit, List.length_append]
    omega
  refine HoldsBytes.text_eq ⟨fun j hj => ?_, ?_⟩ (fun b hb => ?_) (by omega)
  · rw [h.1 j (by omega)]
    simp only [← hsplit, List.getElem_append_left hj]
  · cases rest with
    | nil =>
      rw [List.append_nil] at hsplit
      rw [hsplit]
      exact h.2
    | cons b rest =>
      have hstop : b = 0 := by
        have hhead := List.head?_dropWhile_not (fun b : UInt8 => decide (b ≠ 0)) bytes
        rw [hdrop] at hhead
        simpa using hhead
      have hlt : front.length < bytes.length := by
        rw [← hsplit, List.length_append, List.length_cons]
        omega
      rw [h.1 _ hlt, ← hstop]
      simp only [← hsplit, List.getElem_append_right (Nat.le_refl _), Nat.sub_self,
        List.getElem_cons_zero]
  · rw [← htake] at hb
    simpa using List.mem_takeWhile_imp hb

/-- The string in the array into which a line has been read, once a NUL has been put at `n`. -/
theorem text_overwrite_cut {typed : List UInt8} {n : ℕ} (buf : Bytes) (hn : n ≤ typed.length)
    (hlen : typed.length < addressSpace) :
    Terminated (Function.update (overwrite buf typed) n 0) ∧
      text (Function.update (overwrite buf typed) n 0) =
        (typed.take n).takeWhile (· ≠ 0) := by
  have htake : (typed.take n).length = n := List.length_take_of_le hn
  have hholds : HoldsBytes (Function.update (overwrite buf typed) n 0) (typed.take n) := by
    refine ⟨fun j hj => ?_, ?_⟩
    · have hj' : j < typed.length := by omega
      rw [Function.update_of_ne (by omega), List.getElem_take]
      simp only [overwrite, List.getElem?_eq_getElem hj', Option.getD_some]
    · rw [htake, Function.update_self]
  exact ⟨⟨n, by omega, Function.update_self ..⟩, hholds.text_takeWhile (by omega)⟩

/-! ## What a user sees -/

/-- What a user sees of a program. -/
inductive UserEvent where
  | puts (text : List UInt8)
  | line (typed : List UInt8)
  | runs (command : List UInt8) (rval : ℤ)
deriving DecidableEq

/-- What the user sees of a call. -/
def userEvent : UserCall × ReadResult → Option UserEvent
  | (.write _ buf nbytes, _) => some (.puts (bytesOf buf nbytes))
  | (.read _ _, r) => some (.line r.stored)
  | (.execute command, r) => some (.runs (text command) r.ret)
  | _ => none

def UserEvent.shown : UserEvent → List UInt8
  | .puts text => text
  | _ => []

/-- The kernel with what a program has printed, and the calls of the program. -/
abbrev RecordedWorld := UserWorld × List (UserCall × ReadResult)

def RecordedWorld.events (s : RecordedWorld) : List UserEvent := s.2.filterMap userEvent

/-! ## One rule for each call -/

/-- The program runs as process `p`, and this is what its user has seen of it. `Executes` is for
the programs that execute others. -/
structure AtPoint (Executes : Prop) (p : Pid) (v : View) (es : List UserEvent)
    (s : RecordedWorld) : Prop where
  sees : Sees p False { v with printed := v.printed ++ es.flatMap UserEvent.shown } s.1
  calls : Executes → CallsItsChild p s.1.kernel
  events : s.events = es

section
variable {m : Machine} {Executes : Prop} {p : Pid} {v : View} {es : List UserEvent}
  {s : RecordedWorld} {α : Type} {Q : α → RecordedWorld → Prop}

/-- Whatever happens before a call, the processes that have been called for stay the same. -/
theorem Meanwhile.callsItsChild {k k' : Kernel} (h : Alive p k) (hcalls : CallsItsChild p k)
    (hmeanwhile : Meanwhile m p k k') : CallsItsChild p k' := by
  induction hmeanwhile with
  | refl => exact hcalls
  | tail hfirst hstep ih =>
    obtain ⟨⟨⟨F, hF⟩, -, -⟩, -⟩ := Meanwhile.keeps h hfirst
    cases hstep with
    | typed console => exact ih
    | operation hspares hs => exact ih.step hF (fun _ => hspares.2.1) hs

/-- A call, whatever its reply. -/
theorem safe_call {G : RecordedWorld → Prop} {c : UserCall} {f : ReadResult → UserProg α}
    (h : AtPoint Executes p v es s) (hG : G s)
    (hrest : ∀ w₁ w₂ r,
      Sees p False { v with printed := v.printed ++ es.flatMap UserEvent.shown } w₁ →
      (Executes → CallsItsChild p w₁.kernel) → w₁.kernel.cur_pid = p →
      Replies m p False w₁ c w₂ r →
      Safe (platform m p False).recorded G Q (f r) (w₂, s.2 ++ [(c, r)])) :
    Safe (platform m p False).recorded G Q ((Prog.perform c).bind f) s := by
  refine .call hG fun s₁ s₂ r hbetween hanswer => ?_
  obtain ⟨hbefore, hsame⟩ := hbetween
  obtain ⟨hsees, hcur⟩ := h.sees.between hbefore
  obtain ⟨hreply, hlog⟩ := hanswer
  rw [hsame] at hlog
  -- what the kernel does before the call leaves the program as it was
  have hcalls := fun hex => Meanwhile.callsItsChild h.sees.alive (h.calls hex) hbefore.1
  have hsafe := hrest s₁.1 s₂.1 r hsees hcalls hcur hreply
  rw [← hlog] at hsafe
  exact hsafe

theorem AtPoint.next {c : UserCall} {r : ReadResult} {w : UserWorld} {e : UserEvent}
    (h : AtPoint Executes p v es s) (he : userEvent (c, r) = some e)
    (hsees : Sees p False { v with printed := v.printed ++ (es ++ [e]).flatMap UserEvent.shown } w)
    (hcalls : Executes → CallsItsChild p w.kernel) :
    AtPoint Executes p v (es ++ [e]) (w, s.2 ++ [(c, r)]) := by
  refine ⟨hsees, hcalls, ?_⟩
  have hevents := h.events
  unfold RecordedWorld.events at hevents ⊢
  rw [List.filterMap_append, hevents, List.filterMap_cons_some he, List.filterMap_nil]

/-- `ece391_fdputs` to the screen. -/
theorem safe_puts {G : RecordedWorld → Prop} {buf : Bytes} {f : Unit → UserProg α}
    (h : AtPoint Executes p v es s) (hscreen : ToScreen v.fd_table)
    (hlen : strlen buf + 1 < 2 ^ 31) (hG : G s)
    (hrest : ∀ s', AtPoint Executes p v (es ++ [.puts (text buf)]) s' →
      Safe (platform m p False).recorded G Q (f ()) s') :
    Safe (platform m p False).recorded G Q ((ece391_fdputs 1 buf).bind f) s := by
  have hcount : toInt32 (ece391_strlen buf) = (strlen buf : ℤ) :=
    toInt32_eq (by show strlen buf < 2 ^ 31; omega)
  have hbytes : bytesOf buf (strlen buf : ℤ) = text buf := by
    unfold bytesOf text Words.segment
    simp only [Int.toNat_natCast, Nat.sub_zero, Nat.zero_add]
  show Safe _ G Q ((ece391_write 1 buf (toInt32 (ece391_strlen buf))).bind fun _ => f ()) s
  rw [hcount]
  refine safe_call h hG fun w₁ w₂ r hsees hcalls hcur hreply => hrest _ ?_
  have hto : ToScreen (w₁.kernel.pcb w₁.kernel.cur_pid).fd_table := by
    rw [hcur, hsees.fd_table]
    exact hscreen
  obtain ⟨hwrite, hshown⟩ : write_func 1 (some buf) (strlen buf) w₁.kernel = _ ∧ _ :=
    write_func_screen hto (by omega) (by omega)
  have hperform : UserCall.perform m w₁ (.write 1 buf (strlen buf)) =
      some ({ kernel := (terminal_write buf (strlen buf) w₁.kernel.cli).1.sti
              printed := w₁.printed ++ shown 1 buf (strlen buf) w₁.kernel },
        { ret := strlen buf + 1, stored := [] }) := by
    rw [UserCall.perform, hwrite]
    rfl
  obtain ⟨rfl, rfl⟩ := hreply.unique hperform
  refine h.next (by rw [userEvent, hbytes]) ?_ hcalls
  refine ⟨hsees.alive.congr rfl rfl (fun _ => rfl) fun _ => rfl, hsees.fd_table, hsees.arg, ?_,
    fun hfalse => hfalse.elim⟩
  rw [hshown, hsees.printed, hbytes, List.flatMap_append, List.append_assoc]
  simp only [List.flatMap_singleton, UserEvent.shown]

/-- And of a message. -/
theorem safe_fdputs {G : RecordedWorld → Prop} {chars : List Char} {f : Unit → UserProg α}
    (h : AtPoint Executes p v es s) (hscreen : ToScreen v.fd_table)
    (hlen : chars.length + 1 < 2 ^ 31) (hne : (0 : UInt8) ∉ messageBytes chars) (hG : G s)
    (hrest : ∀ s', AtPoint Executes p v (es ++ [.puts (messageBytes chars)]) s' →
      Safe (platform m p False).recorded G Q (f ()) s') :
    Safe (platform m p False).recorded G Q ((ece391_fdputs 1 (message chars)).bind f) s := by
  have htext := text_message (by unfold addressSpace; omega) hne
  have hstrlen : strlen (message chars) = chars.length := by
    rw [← text_length, htext, messageBytes, List.length_map]
  refine safe_puts h hscreen (by omega) hG ?_
  rw [htext]
  exact hrest

/-- The terminal gives what has been typed, and at most what was asked for. -/
theorem terminal_read_line {k k' : Kernel} {r : ReadResult}
    (h : terminal_read 1023 k = some (k', r)) : r.stored.length ≤ 1023 ∧
      r.ret = r.stored.length ∧ ∃ console, k' = { k with console := console } := by
  have hcount : toUnsigned 1023 = 1023 := by decide
  have hnat : (1023 : ℤ).toNat = 1023 := rfl
  unfold terminal_read at h
  rw [hcount, hnat] at h
  by_cases henter : (k.console.term k.running_term).has_enter = false
  · rw [if_pos henter] at h
    cases h
  rw [if_neg henter] at h
  obtain ⟨rfl, rfl⟩ := Prod.mk.inj (Option.some.inj h)
  simp only [List.length_map, List.length_range]
  refine ⟨Nat.min_le_left _ _, ?_, _, rfl⟩
  split_ifs with hshort
  · rw [Nat.min_eq_right (Nat.le_of_lt hshort), toInt32_eq (by omega)]
  · rw [Nat.min_eq_left (Nat.le_of_not_gt hshort), toInt32_eq (by omega)]

/-- A line from the keyboard. -/
theorem safe_read_line {G : RecordedWorld → Prop} {f : ReadResult → UserProg α}
    (h : AtPoint Executes p v es s)
    (hkeyboard : (v.fd_table 0).flags = true ∧ (v.fd_table 0).op_table_ptr = .stdin) (hG : G s)
    (hrest : ∀ line s', line.length ≤ 1023 → AtPoint Executes p v (es ++ [.line line]) s' →
      Safe (platform m p False).recorded G Q (f { ret := line.length, stored := line }) s') :
    Safe (platform m p False).recorded G Q ((ece391_read 0 1023).bind f) s := by
  refine safe_call h hG fun w₁ w₂ r hsees hcalls hcur hreply => ?_
  have hdesc : (w₁.kernel.pcb w₁.kernel.cur_pid).fd_table 0 = v.fd_table 0 := by
    rw [hcur, hsees.fd_table]
  have hread : read_func m 0 localArray 1023 w₁.kernel = terminal_read 1023 w₁.kernel := by
    have hcall : read_func m 0 localArray 1023 w₁.kernel = _ :=
      read_func_eq (show localArray ≠ 0 by decide) (by rw [hdesc]; exact hkeyboard.1)
    rw [hdesc, hkeyboard.2] at hcall
    exact hcall
  cases hreply with
  | performed hperform =>
    rw [UserCall.perform, hread, Option.map_eq_some_iff] at hperform
    obtain ⟨⟨k, r'⟩, hterminal, heq⟩ := hperform
    rw [Prod.mk.injEq] at heq
    obtain ⟨rfl, rfl⟩ := heq
    obtain ⟨hlen, hret, console, rfl⟩ := terminal_read_line hterminal
    rw [show r' = { ret := r'.stored.length, stored := r'.stored } by rw [← hret]]
    refine hrest r'.stored _ hlen (h.next rfl ?_ hcalls)
    refine ⟨hsees.alive.congr rfl rfl (fun _ => rfl) fun _ => rfl, hsees.fd_table, hsees.arg, ?_,
      fun hfalse => hfalse.elim⟩
    rw [hsees.printed, List.flatMap_append]
    simp only [List.flatMap_singleton, UserEvent.shown, List.append_nil]

/-- A command: the program goes on when it has ended. -/
theorem safe_execute {G : RecordedWorld → Prop} {command : Bytes} {f : ReadResult → UserProg α}
    (h : AtPoint Executes p v es s) (hex : Executes) (hG : G s)
    (hrest : ∀ (completion : Completion) s',
      AtPoint Executes p v (es ++ [.runs (text command) completion.value]) s' →
      Safe (platform m p False).recorded G Q (f { ret := completion.value, stored := [] }) s') :
    Safe (platform m p False).recorded G Q ((ece391_execute command).bind f) s := by
  refine safe_call h hG fun w₁ w₂ r hsees hcalls hcur hreply => ?_
  cases hreply with
  | performed hperform =>
    -- a program takes time: `execute` is no call that the kernel answers at once
    cases hperform
  | executed hexecuted _ =>
    obtain ⟨halive, hkeeps, hcalls', completion, rfl⟩ :=
      hexecuted.returns hsees.alive hcur (hcalls hex)
    refine hrest completion _ (h.next rfl ?_ fun _ => hcalls')
    refine ⟨halive, hkeeps.fd_table.trans hsees.fd_table, hkeeps.arg.trans hsees.arg, ?_,
      fun hfalse => hfalse.elim⟩
    rw [hsees.printed, List.flatMap_append]
    simp only [List.flatMap_singleton, UserEvent.shown, List.append_nil]

end

/-- Before its first call a program has its standard streams. -/
theorem atPoint_first {m : Machine} {k : Kernel} {Executes : Prop}
    (h : ReachableWhere m (KeepsStacks m) k) (hcalls : Executes → CallsItsChild k.cur_pid k) :
    AtPoint Executes k.cur_pid (firstView k) [] ({ kernel := k, printed := [] }, []) ∧
      OnConsole (firstView k).fd_table := by
  obtain ⟨F, hF⟩ := h.reachable.refines
  obtain ⟨hsees, -⟩ : Sees k.cur_pid False (firstView k) { kernel := k, printed := [] } ∧ _ :=
    sees_first h
  exact ⟨⟨hsees, hcalls, rfl⟩, allOnConsole_of_reachable h.reachable _ hF.cur_used⟩

theorem first_eq_zero_iff {s : Bytes} (h : Terminated s) : s 0 = 0 ↔ text s = [] := by
  rw [← List.length_eq_zero_iff, text_length]
  constructor
  · intro hzero
    exact Nat.le_zero.mp (strlen_le hzero)
  · intro hlen
    have hnul := h.nul
    rwa [hlen] at hnul

/-! ## Runs -/

/-- A process with a screen prints. -/
theorem step_write {α : Type} {w : UserWorld} {n : ℤ} (m : Machine)
    (log : List (UserCall × ReadResult)) (buf : Bytes) (f : ReadResult → UserProg α)
    (hscreen : ToScreen (w.kernel.pcb w.kernel.cur_pid).fd_table) (h0 : 0 ≤ n)
    (hlt : n + 1 < 2 ^ 31) : ∃ w' log' r,
      Programs.Step (platform m w.kernel.cur_pid False).recorded
        ((ece391_write 1 buf n).bind f, (w, log)) (f r, (w', log')) ∧
      w'.kernel.cur_pid = w.kernel.cur_pid ∧ w'.kernel.pcb = w.kernel.pcb := by
  obtain ⟨hwrite, -⟩ : write_func 1 (some buf) n w.kernel = _ ∧ _ :=
    write_func_screen hscreen h0 hlt
  obtain ⟨w', r, hperform, hcur, hpcb⟩ : ∃ w' r,
      UserCall.perform m w (.write 1 buf n) = some (w', r) ∧
      w'.kernel.cur_pid = w.kernel.cur_pid ∧ w'.kernel.pcb = w.kernel.pcb := by
    rw [UserCall.perform, hwrite]
    exact ⟨_, _, rfl, rfl, rfl⟩
  have hbetween : (platform m w.kernel.cur_pid False).recorded.between (w, log)
      (.write 1 buf n) (w, log) := ⟨⟨.refl, rfl, rfl, fun h => h.elim⟩, rfl⟩
  have hanswer : (platform m w.kernel.cur_pid False).recorded.answer (w, log)
      (.write 1 buf n) (w', log ++ [(.write 1 buf n, r)]) r := ⟨.performed hperform, rfl⟩
  exact ⟨w', _, r, .call hbetween hanswer, hcur, hpcb⟩

theorem step_fdputs {α : Type} {w : UserWorld} (m : Machine)
    (log : List (UserCall × ReadResult)) (buf : Bytes) (f : Unit → UserProg α)
    (hscreen : ToScreen (w.kernel.pcb w.kernel.cur_pid).fd_table)
    (hlt : strlen buf + 1 < 2 ^ 31) : ∃ w' log',
      Programs.Step (platform m w.kernel.cur_pid False).recorded
        ((ece391_fdputs 1 buf).bind f, (w, log)) (f (), (w', log')) ∧
      w'.kernel.cur_pid = w.kernel.cur_pid ∧ w'.kernel.pcb = w.kernel.pcb := by
  have hcount : toInt32 (ece391_strlen buf) = (strlen buf : ℤ) :=
    toInt32_eq (by show strlen buf < 2 ^ 31; omega)
  have h0 : 0 ≤ toInt32 (ece391_strlen buf) := by omega
  obtain ⟨w', log', r, hstep, hcur, hpcb⟩ := step_write m log buf (fun _ => f ()) hscreen h0
    (by omega)
  exact ⟨w', log', hstep, hcur, hpcb⟩

/-- A line has been typed, whichever terminal runs. -/
def lineConsole (chars : List Char) : Console :=
  { Console.blank with
    length_key := chars.length
    keyboard_buffer := fun j => { c := message chars j, typed := none }
    term := fun t => { Console.blank.term t with has_enter := true } }

theorem terminal_read_typed {chars : List Char} (hlen : chars.length < 1023) (k : Kernel) :
    ∃ console, terminal_read 1023 { k with console := lineConsole chars } =
      some ({ k with console := console },
        { ret := chars.length, stored := messageBytes chars }) := by
  have hcount : toUnsigned 1023 = 1023 := by decide
  have hnat : (1023 : ℤ).toNat = 1023 := rfl
  have henter : ¬ ((lineConsole chars).term k.running_term).has_enter = false := by
    show ¬ true = false
    decide
  have hkeys : (lineConsole chars).length_key = chars.length := rfl
  have hbytes : ((List.range chars.length).map fun j =>
      ((lineConsole chars).keyboard_buffer j).c) = messageBytes chars := by
    have hholds := (message_holds chars).1
    have hbytesLength : (messageBytes chars).length = chars.length := List.length_map _
    refine List.ext_getElem (by rw [List.length_map, List.length_range, hbytesLength])
      fun j hj hj' => ?_
    rw [List.getElem_map, List.getElem_range]
    exact hholds j hj'
  unfold terminal_read
  dsimp only
  rw [if_neg henter, Console.modTerm_length_key, hkeys, hcount, hnat, if_pos hlen,
    Nat.min_eq_right (Nat.le_of_lt hlen), toInt32_eq (by omega)]
  exact ⟨_, congrArg some (Prod.ext rfl (congrArg (ReadResult.mk _) hbytes))⟩

/-- And one with a keyboard reads the line that is typed when it asks for one. -/
theorem step_read {α : Type} {w : UserWorld} (m : Machine)
    (log : List (UserCall × ReadResult)) (chars : List Char) (f : ReadResult → UserProg α)
    (hkeyboard : ((w.kernel.pcb w.kernel.cur_pid).fd_table 0).flags = true ∧
      ((w.kernel.pcb w.kernel.cur_pid).fd_table 0).op_table_ptr = .stdin)
    (hlen : chars.length < 1023) : ∃ w' log',
      Programs.Step (platform m w.kernel.cur_pid False).recorded
        ((ece391_read 0 1023).bind f, (w, log))
        (f { ret := chars.length, stored := messageBytes chars }, (w', log')) ∧
      w'.kernel.cur_pid = w.kernel.cur_pid ∧ w'.kernel.pcb = w.kernel.pcb := by
  obtain ⟨w', hread, hcur, hpcb⟩ : ∃ w', UserCall.perform m
      { w with kernel := { w.kernel with console := lineConsole chars } } (.read 0 1023) =
      some (w', { ret := chars.length, stored := messageBytes chars }) ∧
      w'.kernel.cur_pid = w.kernel.cur_pid ∧ w'.kernel.pcb = w.kernel.pcb := by
    have hcall : read_func m 0 localArray 1023
        { w.kernel with console := lineConsole chars } = _ :=
      read_func_eq (k := { w.kernel with console := lineConsole chars })
        (show localArray ≠ 0 by decide) hkeyboard.1
    rw [hkeyboard.2] at hcall
    obtain ⟨console, hterminal⟩ := terminal_read_typed hlen w.kernel
    rw [show OpTable.stdin.read m 0 1023 { w.kernel with console := lineConsole chars } =
      terminal_read 1023 { w.kernel with console := lineConsole chars } from rfl,
      hterminal] at hcall
    rw [UserCall.perform, hcall]
    exact ⟨_, rfl, rfl, rfl⟩
  have hbetween : (platform m w.kernel.cur_pid False).recorded.between (w, log)
      (.read 0 1023)
      ({ w with kernel := { w.kernel with console := lineConsole chars } }, log) :=
    ⟨⟨.single (.typed _ _), rfl, rfl, fun h => h.elim⟩, rfl⟩
  have hanswer : (platform m w.kernel.cur_pid False).recorded.answer
      ({ w with kernel := { w.kernel with console := lineConsole chars } }, log) (.read 0 1023)
      (w', log ++ [(.read 0 1023, _)]) _ := ⟨.performed hread, rfl⟩
  exact ⟨w', _, .call hbetween hanswer, hcur, hpcb⟩

end Kernel391
