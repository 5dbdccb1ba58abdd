import Kernel391.CommandWords
import Kernel391.Drivers
import Kernel391.ProcessForest

/-!
# The argument a process asks for

`execute` stores the argument of a command in the PCB of the new process, where `getargs` finds
it. The runs below note the argument each process has been started with; no other operation
touches it, whatever becomes of the other slots. What `getargs` does with it is right if and only
if the buffer has room for the NUL (`getargs_whole_iff`): a shorter one is filled without one, and
a negative count is a huge one, whose copy only ends at a page that is not mapped.
-/

namespace Kernel391

open TransitionSystem

/-! ## Runs -/

/-- The argument `execute` takes from a command. -/
def argumentOf (img : Image) (command : Bytes) (fr : Frame) (fs : FsGlobals) : List UInt8 :=
  match check_command img command fr fs with
  | .accept x => text x.argument
  | _ => []

/-- The argument of the process an operation starts, if it starts one. -/
def calledWith (m : Machine) (k : Kernel) : Event → List UInt8
  | .execute command fr => argumentOf m.img command fr k.fs
  | .halt _ _ frShell => argumentOf m.img m.shell frShell k.fs
  | .launch_term _ _ frShell => argumentOf m.img m.shell frShell k.fs
  | _ => []

/-- Note the argument of a new process. -/
def noteArgument (m : Machine) (k : Kernel) (e : Event) (h : Pid → List UInt8) :
    Pid → List UInt8 :=
  match step m k e with
  | some (k', .enterUser _) => Function.update h k'.cur_pid (calledWith m k e)
  | _ => h

/-- The notes begin with the first shell. -/
def NotesShell (m : Machine) (k : Kernel) (h : Pid → List UInt8) : Prop :=
  ∃ mem fr e, execute_func m .kernel m.shell fr (boot m mem) = some (k, .enterUser e) ∧
    h k.cur_pid = argumentOf m.img m.shell fr mem.fs

def argumentSystem (m : Machine) : System (Kernel × (Pid → List UInt8)) Event :=
  System.withHistory (system m fun _ => True) (NotesShell m) (noteArgument m)

/-! ## What the operations do to the arguments -/

/-- Arguments stay where they are and slots are not taken, but for a process that has just been
started; it has the argument `arg`. -/
structure KeepsArguments (arg : List UInt8) (k k' : Kernel) (out : Outcome) : Prop where
  others : ∀ q, (k'.pcb q).arg = (k.pcb q).arg ∧ (k'.pid_array q = true → k.pid_array q = true) ∨
    (∃ e, out = .enterUser e) ∧ q = k'.cur_pid
  fresh : ∀ e, out = .enterUser e →
    text (k'.pcb k'.cur_pid).arg = arg ∧ arg.length < MAX_ARG

section
variable {m : Machine} {k k' : Kernel} {out : Outcome} {arg : List UInt8}

/-- Nobody starts. -/
theorem KeepsArguments.of_eq (hret : ∀ e, out ≠ .enterUser e)
    (harg : ∀ q, (k'.pcb q).arg = (k.pcb q).arg)
    (hused : ∀ q, k'.pid_array q = true → k.pid_array q = true) :
    KeepsArguments arg k k' out :=
  ⟨fun q => Or.inl ⟨harg q, hused q⟩, fun e he => absurd he (hret e)⟩

/-- What has been done before the start of a process. -/
theorem KeepsArguments.trans {k₁ : Kernel} (h : KeepsArguments arg k₁ k' out)
    (harg : ∀ q, (k₁.pcb q).arg = (k.pcb q).arg)
    (hused : ∀ q, k₁.pid_array q = true → k.pid_array q = true) :
    KeepsArguments arg k k' out := by
  refine ⟨fun q => ?_, h.fresh⟩
  rcases h.others q with ⟨hsame, hslot⟩ | hnew
  · exact Or.inl ⟨hsame.trans (harg q), fun hq => hused q (hslot hq)⟩
  · exact Or.inr hnew

/-- The copy of an argument ends with a NUL, inside its buffer. -/
theorem text_argument {img : Image} {command : Bytes} {fr : Frame} {fs : FsGlobals}
    {x : Executable} (h : check_command img command fr fs = .accept x) :
    Terminated x.argument ∧ (text x.argument).length < MAX_ARG := by
  obtain ⟨p, d, -, hfit, -, -, harg⟩ := check_command_accept h
  have hnul : x.argument (p.end_point - p.start_point) = 0 := by
    rw [harg]
    unfold copyArgument
    rw [if_neg (Nat.lt_irrefl _), if_pos rfl]
  have hmax : MAX_ARG = 1024 := rfl
  have hle : strlen x.argument ≤ p.end_point - p.start_point := strlen_le hnul
  refine ⟨⟨_, ?_, hnul⟩, ?_⟩
  · unfold addressSpace
    omega
  · rw [text_length]
    omega

theorem execute_func_keepsArguments {caller : Caller} {command : Bytes} {fr : Frame}
    (h : execute_func m caller command fr k = some (k', out)) :
    KeepsArguments (argumentOf m.img command fr k.fs) k k' out := by
  rcases execute_func_cases h with ⟨fs, -, rfl, rfl⟩ | ⟨x, -, -, rfl, console, -, rfl⟩ |
    ⟨x, p, hcheck, -, -, rfl, frame, console, -, rfl⟩
  · exact KeepsArguments.of_eq (by simp) (fun q => rfl) fun q hq => hq
  · exact KeepsArguments.of_eq (by simp) (fun q => rfl) fun q hq => hq
  obtain ⟨hterminated, hlength⟩ := text_argument hcheck
  have harg : argumentOf m.img command fr k.fs = text x.argument := by
    unfold argumentOf
    rw [hcheck]
  refine ⟨fun q => ?_, fun e _ => ⟨?_, harg ▸ hlength⟩⟩
  · by_cases hq : q = p
    · exact Or.inr ⟨⟨_, rfl⟩, hq⟩
    · refine Or.inl ⟨by rw [started_pcb_of_ne _ _ _ _ _ _ _ _ hq], fun hused => ?_⟩
      have hslot : Function.update k.pid_array p true q = true := hused
      rwa [Function.update_of_ne hq] at hslot
  · show text ((started caller x p fr k frame console).pcb p).arg = _
    rw [started_pcb_self, harg]
    exact text_strcpy hterminated _

/-- The first part of `halt` leaves the arguments, the slots and the file system alone. -/
theorem halt_target_arguments {status : UInt8} {fr : Frame} {victim : Pid} {t : TermId}
    (h : halt_target status fr k = some (victim, t, k')) :
    (∀ q, (k'.pcb q).arg = (k.pcb q).arg) ∧ k'.pid_array = k.pid_array ∧ k'.fs = k.fs := by
  obtain ⟨console, -, ⟨-, -, -, -, rfl⟩ | ⟨-, -, -, -, running, -, rfl⟩ | ⟨-, -, -, rfl⟩⟩ :=
    halt_target_cases h
  · exact ⟨fun q => rfl, rfl, rfl⟩
  · exact ⟨fun q => update_field Pcb.arg q, rfl, rfl⟩
  · exact ⟨fun q => rfl, rfl, rfl⟩

theorem released_arguments (victim : Pid) (k : Kernel) :
    (∀ q, ((released victim k).pcb q).arg = (k.pcb q).arg) ∧
      ∀ q, (released victim k).pid_array q = true → k.pid_array q = true := by
  refine ⟨fun q => update_field Pcb.arg q, fun q hq => ?_⟩
  have hslot : Function.update k.pid_array (k.pcb victim).pid false q = true := hq
  by_cases hfreed : q = (k.pcb victim).pid
  · rw [hfreed, Function.update_self] at hslot
    cases hslot
  · rwa [Function.update_of_ne hfreed] at hslot

theorem halt_func_keepsArguments {status : UInt8} {fr frShell : Frame}
    (h : halt_func m status fr frShell k = some (k', out)) :
    KeepsArguments (argumentOf m.img m.shell frShell k.fs) k k' out := by
  obtain ⟨victim, t, k₁, htarget, -, hend⟩ := halt_func_cases h
  obtain ⟨harg, harray, hfs⟩ := halt_target_arguments htarget
  obtain ⟨hreleased, hslots⟩ := released_arguments victim k₁
  have hall : ∀ q, ((released victim k₁).pcb q).arg = (k.pcb q).arg := fun q =>
    (hreleased q).trans (harg q)
  have hused : ∀ q, (released victim k₁).pid_array q = true → k.pid_array q = true := by
    intro q hq
    have hslot := hslots q hq
    rw [harray] at hslot
    exact hslot
  rcases hend with ⟨parent, -, heq⟩ | ⟨-, e, rfl, hex⟩
  · rw [(Prod.mk.inj heq).1, (Prod.mk.inj heq).2]
    exact KeepsArguments.of_eq (by simp) hall hused
  · have hnew := execute_func_keepsArguments hex
    rw [show ((released victim k₁).modTerm t fun i => { i with running_pid := none }).fs = k.fs
      from hfs] at hnew
    exact hnew.trans hall hused

theorem launch_term_keepsArguments {t : TermId} {fr frShell : Frame}
    (h : launch_term m t fr frShell k = some (k', out)) :
    KeepsArguments (argumentOf m.img m.shell frShell k.fs) k k' out := by
  rcases launch_term_cases h with ⟨-, rfl, rfl⟩ | ⟨-, -, old, -, r, hex, hout⟩ |
    ⟨-, -, rfl, rfl⟩
  · exact KeepsArguments.of_eq (by simp) (fun q => rfl) fun q hq => hq
  · have hnew : KeepsArguments (argumentOf m.img m.shell frShell k.fs) k k' r :=
      (execute_func_keepsArguments hex).trans (fun q => update_field Pcb.arg q) fun q hq => hq
    rcases hout with ⟨e, hr, hout⟩ | ⟨hne, hout⟩
    · rw [hout, ← hr]
      exact hnew
    · refine KeepsArguments.of_eq (by rw [hout]; simp) (fun q => ?_) fun q => ?_
      · exact ((hnew.others q).resolve_right fun hq => hne _ hq.1.choose_spec).1
      · exact ((hnew.others q).resolve_right fun hq => hne _ hq.1.choose_spec).2
  · exact KeepsArguments.of_eq (by simp) (fun q => rfl) fun q hq => hq

theorem step_keepsArguments {e : Event} (hid : ∀ t, (k.term t).term_id = t)
    (h : step m k e = some (k', out)) : KeepsArguments (calledWith m k e) k k' out := by
  rcases step_quiet h with ⟨command, fr, rfl⟩ | ⟨status, fr, frShell, rfl⟩ |
    ⟨t, fr, frShell, rfl⟩ | ⟨fr, rfl⟩ | ⟨hquiet, v, rfl⟩
  · exact execute_func_keepsArguments h
  · exact halt_func_keepsArguments h
  · exact launch_term_keepsArguments h
  · obtain ⟨htick, rfl⟩ := step_tick h
    rcases pit_interrupt_handler_cases hid htick with ⟨-, -, rfl⟩ | ⟨-, t, p, curr, -, -, rfl⟩
    · exact KeepsArguments.of_eq (by simp) (fun q => rfl) fun q hq => hq
    · exact KeepsArguments.of_eq (by simp) (fun q => update_field Pcb.arg q) fun q hq => hq
  · obtain ⟨table, freq, paging, console, fs, frame, -, rfl⟩ := hquiet
    exact KeepsArguments.of_eq (by simp) (fun q => update_field Pcb.arg q) fun q hq => hq

/-! ## The notes are right -/

/-- Every process in use has the argument noted for it. -/
def ArgumentsNoted (k : Kernel) (h : Pid → List UInt8) : Prop :=
  ∀ q, k.pid_array q = true → text (k.pcb q).arg = h q ∧ (h q).length < MAX_ARG

theorem ArgumentsNoted.step {h : Pid → List UInt8} {e : Event} (hnoted : ArgumentsNoted k h)
    (hid : ∀ t, (k.term t).term_id = t) (hs : step m k e = some (k', out)) :
    ArgumentsNoted k' (noteArgument m k e h) := by
  have hkeeps := step_keepsArguments hid hs
  intro q hq
  unfold noteArgument
  rw [hs]
  cases out with
  | enterUser e' =>
    dsimp only
    by_cases hcur : q = k'.cur_pid
    · rw [hcur, Function.update_self]
      exact hkeeps.fresh e' rfl
    · obtain ⟨harg, hused⟩ := (hkeeps.others q).resolve_right fun hnew => hcur hnew.2
      rw [Function.update_of_ne hcur, harg]
      exact hnoted q (hused hq)
  | ret v =>
    obtain ⟨harg, hused⟩ := (hkeeps.others q).resolve_right (by simp)
    rw [harg]
    exact hnoted q (hused hq)
  | resume caller esp ebp eax =>
    obtain ⟨harg, hused⟩ := (hkeeps.others q).resolve_right (by simp)
    rw [harg]
    exact hnoted q (hused hq)

theorem NotesShell.argumentsNoted {h : Pid → List UInt8} (hstart : NotesShell m k h) :
    ArgumentsNoted k h := by
  obtain ⟨mem, fr, e, hex, hshell⟩ := hstart
  have hkeeps := execute_func_keepsArguments hex
  intro q hq
  rcases hkeeps.others q with ⟨-, hused⟩ | ⟨-, rfl⟩
  · -- at boot no slot is in use
    cases hused hq
  · rw [hshell]
    exact hkeeps.fresh e rfl

/-- In every run the running process has the argument noted for it. -/
theorem argument_noted {h : Pid → List UInt8} (hreach : (argumentSystem m).Reachable (k, h)) :
    text (k.pcb k.cur_pid).arg = h k.cur_pid ∧ (h k.cur_pid).length < MAX_ARG := by
  have hnoted : (∃ F, Refines k.links F) ∧ ArgumentsNoted k h := by
    refine System.ReachableWhere.invariant
      (P := fun p => (∃ F, Refines p.1.links F) ∧ ArgumentsNoted p.1 p.2) hreach
      (fun p h0 => ?_) fun p e p' _ hp _ hs => ?_
    · obtain ⟨⟨mem, -, hstart⟩, hshell⟩ := h0
      obtain ⟨q, hF⟩ := started_refines hstart
      exact ⟨⟨_, hF⟩, hshell.argumentsNoted⟩
    · obtain ⟨⟨F, hF⟩, hnoted⟩ := hp
      obtain ⟨hstep, hnote⟩ := System.withHistory_step_iff.mp hs
      obtain ⟨out, hstep⟩ := system_step_iff.mp hstep
      obtain ⟨F', -, hF'⟩ := step_refines hF hstep
      rw [hnote]
      exact ⟨⟨F', hF'⟩, hnoted.step hF.stacked.number hstep⟩
  obtain ⟨⟨F, hF⟩, hnoted⟩ := hnoted
  exact hnoted k.cur_pid hF.cur_used

/-! ## What `getargs` copies -/

/-- The string as far as there is room, and NULs behind it. -/
theorem strncpy_text (s : Bytes) (n : ℕ) :
    strncpy s n = (text s).take n ++ List.replicate (n - strlen s) 0 := by
  have hlen : ((text s).take n).length = min n (strlen s) := by
    rw [List.length_take, text_length]
  apply List.ext_getElem
  · rw [List.length_append, hlen, List.length_replicate]
    simp only [strncpy, List.length_map, List.length_range]
    omega
  · intro j hj hj'
    simp only [strncpy, List.length_map, List.length_range] at hj
    simp only [strncpy, List.getElem_map, List.getElem_range]
    by_cases hin : j < strlen s
    · rw [if_pos hin, List.getElem_append_left (by omega), List.getElem_take, text_getElem]
    · rw [if_neg hin, List.getElem_append_right (by omega), List.getElem_replicate]

/-- The whole argument with its NUL is copied, or the call fails, and nothing is written behind
the buffer. -/
structure GetsArgument (arg : List UInt8) (nbytes : ℤ) (r : ReadResult) : Prop where
  succeeds : r.ret = 0 ↔ arg ≠ [] ∧ (arg.length : ℤ) + 1 ≤ nbytes
  fails : r.ret ≠ 0 → r.ret = -1
  whole : r.ret = 0 → arg ++ [0] <+: r.stored
  inside : (r.stored.length : ℤ) ≤ max nbytes 0

/-- When that is what happens. -/
def ArgumentFits (arg : List UInt8) (buf : Word) (nbytes : ℤ) : Prop :=
  arg = [] ∨ if buf = 0 then nbytes ≤ arg.length else nbytes = 0 ∨ (arg.length : ℤ) < nbytes

instance (arg : List UInt8) (buf : Word) (nbytes : ℤ) :
    Decidable (ArgumentFits arg buf nbytes) := by
  unfold ArgumentFits
  infer_instance

/-- A call that fails is right when it has to fail. -/
theorem getsArgument_failed_iff {arg : List UInt8} {nbytes : ℤ} :
    GetsArgument arg nbytes .failed ↔ arg = [] ∨ nbytes ≤ arg.length := by
  have hret : ReadResult.failed.ret = -1 := rfl
  constructor
  · intro h
    have hfail : ¬ (arg ≠ [] ∧ (arg.length : ℤ) + 1 ≤ nbytes) := by
      rw [← h.succeeds, hret]
      decide
    by_cases hnil : arg = []
    · exact Or.inl hnil
    · refine Or.inr ?_
      by_contra hlong
      exact hfail ⟨hnil, by omega⟩
  · intro hshort
    refine ⟨iff_of_false (by rw [hret]; decide) ?_, fun _ => rfl, fun h0 => ?_, ?_⟩
    · rintro ⟨hne, hlong⟩
      rcases hshort with hnil | hshort
      · exact hne hnil
      · omega
    · rw [hret] at h0
      cases h0
    · show (0 : ℤ) ≤ max nbytes 0
      exact le_max_right _ _

/-- A copy is right when there is room for the NUL. -/
theorem getsArgument_copied_iff {s : Bytes} {nbytes : ℤ} (hne : text s ≠ [])
    (hlo : -2 ^ 31 ≤ nbytes) (hhi : nbytes < 2 ^ 31) :
    GetsArgument (text s) nbytes { ret := 0, stored := strncpy s (toUnsigned nbytes) } ↔
      ((text s).length : ℤ) < nbytes := by
  constructor
  · intro h
    have hlong := (h.succeeds.mp rfl).2
    omega
  · intro hlong
    have hcount : (toUnsigned nbytes : ℤ) = nbytes := toUnsigned_eq (by omega) hhi
    rw [text_length] at hlong
    refine ⟨iff_of_true rfl ⟨hne, by rw [text_length]; omega⟩, fun h => absurd rfl h, fun _ => ?_,
      ?_⟩
    · rw [strncpy_text, List.take_of_length_le (by rw [text_length]; omega),
        show toUnsigned nbytes - strlen s = (toUnsigned nbytes - strlen s - 1) + 1 by omega,
        List.replicate_succ]
      exact ⟨_, (List.append_cons _ _ _).symm⟩
    · have hstored : (strncpy s (toUnsigned nbytes)).length = toUnsigned nbytes := by
        simp only [strncpy, List.length_map, List.length_range]
      rw [hstored, hcount]
      exact le_max_left _ _

/-- In every run, `getargs` is right for the running process if and only if the buffer has room
for the NUL, or the call has to fail anyway. -/
theorem getargs_whole_iff {h : Pid → List UInt8} (hreach : (argumentSystem m).Reachable (k, h))
    {buf : Word} {nbytes : ℤ} (hlo : -2 ^ 31 ≤ nbytes) (hhi : nbytes < 2 ^ 31) :
    GetsArgument (h k.cur_pid) nbytes (getargs_func buf nbytes k) ↔
      ArgumentFits (h k.cur_pid) buf nbytes := by
  obtain ⟨harg, -⟩ := argument_noted hreach
  rw [← harg]
  unfold getargs_func ArgumentFits
  dsimp only
  by_cases hnil : text (k.pcb k.cur_pid).arg = []
  · have hzero : strlen (k.pcb k.cur_pid).arg = 0 := by
      rw [← text_length, hnil]
      rfl
    rw [if_pos hzero, ite_self]
    exact iff_of_true (getsArgument_failed_iff.mpr (Or.inl hnil)) (Or.inl hnil)
  have hpositive : ¬ strlen (k.pcb k.cur_pid).arg = 0 := by
    rw [← text_length, List.length_eq_zero_iff]
    exact hnil
  rw [if_neg hpositive, or_iff_right hnil]
  by_cases hbuf : buf = 0
  · rw [if_pos (Or.inl hbuf), if_pos hbuf, getsArgument_failed_iff, or_iff_right hnil]
  rw [if_neg hbuf]
  by_cases hn : nbytes = 0
  · rw [if_pos (Or.inr hn)]
    refine iff_of_true (getsArgument_failed_iff.mpr (Or.inr ?_)) (Or.inl hn)
    omega
  · rw [if_neg (by tauto), or_iff_right hn]
    exact getsArgument_copied_iff hnil hlo hhi

end

/-! ## A shell with an argument -/

/-- The argument `abc`. -/
def argumentCommand : Bytes := literal ['s', 'h', 'e', 'l', 'l', ' ', 'a', 'b', 'c'] fun _ => 0

theorem argumentSystem_init : (argumentSystem sampleMachine).init (sampleKernel, fun _ => []) := by
  obtain ⟨e, hex⟩ := sampleKernel_shell
  refine ⟨⟨sampleMemory, trivial, sampleKernel_started⟩, sampleMemory, sampleFrame, e, hex, ?_⟩
  have hnone : [] = argumentOf sampleMachine.img sampleMachine.shell sampleFrame
    sampleMemory.fs := by decide +kernel
  exact hnone

theorem argument_sample : ∃ p, (argumentSystem sampleMachine).Reachable p ∧
    p.2 p.1.cur_pid = [0x61, 0x62, 0x63] :=
  System.Reachable.exists_of_run argumentSystem_init [.execute argumentCommand sampleFrame]
    (P := fun p => p.2 p.1.cur_pid = [0x61, 0x62, 0x63]) (by decide +kernel)

theorem getargs_whole_sample : ∃ p, (argumentSystem sampleMachine).Reachable p ∧
    GetsArgument (p.2 p.1.cur_pid) 4 (getargs_func 0x08000000 4 p.1) := by
  obtain ⟨⟨k, h⟩, hreach, harg⟩ := argument_sample
  refine ⟨(k, h), hreach, (getargs_whole_iff hreach (by decide) (by decide)).mpr ?_⟩
  rw [show h k.cur_pid = [0x61, 0x62, 0x63] from harg]
  decide

/-- A buffer of two bytes is filled with `ab`, and the call succeeds. -/
theorem getargs_not_whole : ¬ ∀ (m : Machine) (p : Kernel × (Pid → List UInt8)),
    (argumentSystem m).Reachable p → ∀ (buf : Word) (nbytes : ℤ), -2 ^ 31 ≤ nbytes →
      nbytes < 2 ^ 31 → GetsArgument (p.2 p.1.cur_pid) nbytes (getargs_func buf nbytes p.1) := by
  intro hall
  obtain ⟨⟨k, h⟩, hreach, harg⟩ := argument_sample
  have hright := hall sampleMachine (k, h) hreach 0x08000000 2 (by decide) (by decide)
  have hfits := (getargs_whole_iff hreach (by decide) (by decide)).mp hright
  rw [show h k.cur_pid = [0x61, 0x62, 0x63] from harg] at hfits
  revert hfits
  decide

end Kernel391
