import Kernel391.Lib.PointerChain
import Kernel391.Lib.Slots
import Kernel391.Lib.TransitionSystem
import Mathlib.Data.Fintype.Card
import Mathlib.Data.Nat.Bitwise

/-!
# The blink list of `fish`

`blink.S` keeps the blinking characters of the aquarium in a linked list of structures that
`fish.c` hands out from `blink_array`. There is no free list: a structure is free when its
location is 0.

A loop over the list is bounded by the number of structures, `none` if it is not over by
then: it follows the same links every time round, so one that has met a structure twice
goes on for ever (`ends_iff_chain`). A requested step that does not end is disabled in
`fishSystem`.
-/

namespace Kernel391.Fish

open PointerChain TransitionSystem

/-- Structures of `blink_array`: one for each character of the screen. -/
def NUM_BLINK : ℕ := 80 * 25

instance : NeZero NUM_BLINK := ⟨by decide⟩

/-- A pointer into `blink_array` that is not null. -/
abbrev Slot := Fin NUM_BLINK

/-- `struct mp1_blink_struct`. -/
structure BlinkStruct where
  location : UInt16
  on_char : UInt8
  off_char : UInt8
  on_length : UInt16
  off_length : UInt16
  countdown : UInt16
  status : UInt16
  next : Option Slot
deriving DecidableEq, Repr

/-- Memory filled with zeros, read as a structure. -/
def BlinkStruct.zero : BlinkStruct where
  location := 0
  on_char := 0
  off_char := 0
  on_length := 0
  off_length := 0
  countdown := 0
  status := 0
  next := none

/-- The program's data, and video memory from `vmem_base_addr` on. -/
structure State where
  blink_array : Slot → BlinkStruct
  mp1_list_head : Option Slot
  video : ℕ → UInt8

/-! ## Memory -/

def State.setBlink (f : State) (s : Slot) (b : BlinkStruct) : State :=
  { f with blink_array := Function.update f.blink_array s b }

/-- `mp1_poke`: a character written at an offset. -/
def mp1_poke (f : State) (c : UInt8) (offset : ℕ) : State :=
  { f with video := Function.update f.video offset c }

/-- Offset of the character at a location. -/
def offsetOf (location : UInt16) : ℕ := 2 * location.toNat

def mp1_malloc (f : State) : Option Slot :=
  (List.finRange NUM_BLINK).find? fun i => (f.blink_array i).location == 0

def mp1_free (f : State) (s : Slot) : State := f.setBlink s .zero

/-! ## Loops over the list -/

/-- The loop of `mp1_find_helper` from a pointer on. -/
def findFrom (f : State) (location : UInt16) : ℕ → Option Slot → Option (Option Slot)
  | _, none => some none
  | 0, some _ => none
  | n + 1, some s =>
    if (f.blink_array s).location = location then some (some s)
    else findFrom f location n (f.blink_array s).next

def mp1_find_helper (f : State) (location : UInt16) : Option (Option Slot) :=
  findFrom f location NUM_BLINK f.mp1_list_head

/-- One round of `mp1_rtc_tasklet`: the countdown is signed, and the other character is
drawn when it has run out. -/
def blink (f : State) (s : Slot) : State :=
  let b := f.blink_array s
  if 0 < (b.countdown - 1).toInt16 then f.setBlink s { b with countdown := b.countdown - 1 }
  else if b.status &&& 1 = 0 then
    (mp1_poke f b.on_char (offsetOf b.location)).setBlink s
      { b with countdown := b.on_length, status := b.status ^^^ 1 }
  else
    (mp1_poke f b.off_char (offsetOf b.location)).setBlink s
      { b with countdown := b.off_length, status := b.status ^^^ 1 }

def taskletFrom : ℕ → Option Slot → State → Option State
  | _, none, f => some f
  | 0, some _, _ => none
  | n + 1, some s, f => taskletFrom n ((blink f s).blink_array s).next (blink f s)

def mp1_rtc_tasklet (f : State) : Option State := taskletFrom NUM_BLINK f.mp1_list_head f

/-! ## Requests -/

/-- Where a pointer to a structure is stored: the address in `edx` of `mp1_ioctl_remove`. -/
inductive Link
  | list_head
  | next (s : Slot)
deriving DecidableEq, Repr

def Link.load (f : State) : Link → Option Slot
  | .list_head => f.mp1_list_head
  | .next s => (f.blink_array s).next

def Link.store (f : State) (p : Option Slot) : Link → State
  | .list_head => { f with mp1_list_head := p }
  | .next s => f.setBlink s { f.blink_array s with next := p }

def mp1_ioctl_add (f : State) (user : BlinkStruct) : State × ℤ :=
  if 80 * 25 ≤ user.location.toNat then (f, -1)
  else
    let temp := { user with status := 1, countdown := user.on_length }
    match mp1_malloc f with
    | none => (f, -1)
    | some s =>
      -- the copy of the structure, with its own link
      let f' := { f.setBlink s { temp with next := f.mp1_list_head } with
        mp1_list_head := some s }
      (mp1_poke f' temp.on_char (offsetOf temp.location), 0)

/-- `remove_find_prev`: the link that points to `s`, from a link on. A null link would be
read through. -/
def findPrev (f : State) (s : Slot) : ℕ → Link → Option Link
  | 0, link => if link.load f = some s then some link else none
  | n + 1, link =>
    if link.load f = some s then some link
    else (link.load f).bind fun t => findPrev f s n (.next t)

def mp1_ioctl_remove (f : State) (arg : UInt32) : Option (State × ℤ) := do
  match ← mp1_find_helper f arg.toUInt16 with
  | none => return (f, -1)
  | some s =>
    let prev ← findPrev f s NUM_BLINK .list_head
    return (mp1_free (prev.store f (f.blink_array s).next) s, 0)

/-- The structure found is copied out; the program's data stay. -/
def mp1_ioctl_find (f : State) (location : UInt16) : Option (Option BlinkStruct × ℤ) := do
  match ← mp1_find_helper f location with
  | none => return (none, -1)
  | some s => return (some (f.blink_array s), 0)

/-- The fields `sync_copy_loop` copies. -/
def BlinkStruct.sync (dest src : BlinkStruct) : BlinkStruct :=
  { dest with
    on_length := src.on_length
    off_length := src.off_length
    countdown := src.countdown
    status := src.status }

/-- `testb $0x1,STATUS` and `cmovl`: `on_char` only if the result was negative, that is if
the sign flag differs from the overflow flag. -/
def syncChar (b : BlinkStruct) : UInt8 :=
  let result := b.status.toUInt8 &&& 1
  let sf := decide (128 ≤ result.toNat)
  let overflow := false
  if sf ≠ overflow then b.on_char else b.off_char

def mp1_ioctl_sync (f : State) (arg : UInt32) : Option (State × ℤ) := do
  match ← mp1_find_helper f (arg >>> 16).toUInt16 with
  | none => return (f, -1)
  | some src =>
    match ← mp1_find_helper f (arg &&& 0xFFFF).toUInt16 with
    | none => return (f, -1)
    | some dest =>
      let b := (f.blink_array dest).sync (f.blink_array src)
      return (mp1_poke (f.setBlink dest b) (syncChar b) (offsetOf b.location), 0)

/-! ## Runs -/

/-- What the program may be asked for: the commands of `mp1_ioctl`, and a tick. -/
inductive Request
  | add (user : BlinkStruct)
  | remove (arg : UInt32)
  | find (location : UInt16)
  | sync (arg : UInt32)
  | tick

def request (f : State) : Request → Option State
  | .add user => some (mp1_ioctl_add f user).1
  | .remove arg => (mp1_ioctl_remove f arg).map Prod.fst
  | .find location => (mp1_ioctl_find f location).map fun _ => f
  | .sync arg => (mp1_ioctl_sync f arg).map Prod.fst
  | .tick => mp1_rtc_tasklet f

/-- `main` clears `blink_array`; the screen is what it was. -/
def fishSystem : System State Request where
  init f := (∀ s, f.blink_array s = .zero) ∧ f.mp1_list_head = none
  step := request

/-! ## The loops on a chain -/

/-- The links of the structures. -/
def State.next (f : State) (s : Slot) : Option Slot := (f.blink_array s).next

variable {f f' : State} {s t : Slot} {b : BlinkStruct} {p : Option Slot} {l l₁ l₂ : List Slot}
variable {location : UInt16} {n : ℕ}

@[simp] theorem setBlink_self (f : State) (s : Slot) (b : BlinkStruct) :
    (f.setBlink s b).blink_array s = b := Function.update_self ..

@[simp] theorem setBlink_of_ne (h : t ≠ s) :
    (f.setBlink s b).blink_array t = f.blink_array t := Function.update_of_ne h ..

/-- There are no more structures than that. -/
theorem chain_length_le {next : Slot → Option Slot} (h : IsChain next p l) :
    l.length ≤ NUM_BLINK := by
  have hcard := List.Nodup.length_le_card h.nodup
  rwa [Fintype.card_fin] at hcard

theorem findFrom_eq (h : IsChain f.next p l) (hn : l.length ≤ n) :
    findFrom f location n p
      = some (l.find? fun s => (f.blink_array s).location == location) := by
  induction l generalizing p n with
  | nil =>
    rw [h.head?]
    cases n <;> rfl
  | cons s l ih =>
    obtain ⟨m, rfl⟩ : ∃ m, n = m + 1 := ⟨n - 1, by rw [List.length_cons] at hn; omega⟩
    rw [h.1, findFrom, List.find?_cons]
    split_ifs with hloc
    · rw [beq_iff_eq.mpr hloc]
    · rw [beq_eq_false_iff_ne.mpr hloc]
      exact ih h.2 (by rw [List.length_cons] at hn; omega)

/-- On a chain `mp1_find_helper` ends, with the first structure at the location. -/
theorem mp1_find_helper_eq (h : IsChain f.next f.mp1_list_head l) :
    mp1_find_helper f location
      = some (l.find? fun s => (f.blink_array s).location == location) :=
  findFrom_eq h (chain_length_le h)

/-- The character that belongs on the screen. -/
def BlinkStruct.shown (b : BlinkStruct) : UInt8 :=
  if b.status &&& 1 = 0 then b.off_char else b.on_char

/-- Another state of the same character. -/
def BlinkStruct.timed (b : BlinkStruct) (countdown status : UInt16) : BlinkStruct :=
  { b with countdown := countdown, status := status }

theorem xor_one_and_one (status : UInt16) :
    (status ^^^ 1) &&& 1 = 0 ↔ ¬ status &&& 1 = 0 := by
  rw [← UInt16.toNat_inj, ← UInt16.toNat_inj, UInt16.toNat_and, UInt16.toNat_and,
    UInt16.toNat_xor, UInt16.toNat_one, Nat.and_one_is_mod, Nat.and_one_is_mod,
    Nat.xor_mod_two_eq, UInt16.toNat_zero]
  omega

/-- The character of the other status. -/
theorem shown_timed_xor (b : BlinkStruct) (countdown : UInt16) :
    (b.timed countdown (b.status ^^^ 1)).shown
      = if b.status &&& 1 = 0 then b.on_char else b.off_char := by
  by_cases hoff : b.status &&& 1 = 0
  · rw [if_pos hoff]
    exact if_neg (fun h => (xor_one_and_one b.status).mp h hoff)
  · rw [if_neg hoff]
    exact if_pos ((xor_one_and_one b.status).mpr hoff)

/-- A round counts down, or flips the status and draws what belongs there now. -/
theorem blink_cases (f : State) (s : Slot) : ∃ countdown,
    blink f s = f.setBlink s ((f.blink_array s).timed countdown (f.blink_array s).status) ∨
    ∃ b, b = (f.blink_array s).timed countdown ((f.blink_array s).status ^^^ 1) ∧
      blink f s = (mp1_poke f b.shown (offsetOf b.location)).setBlink s b := by
  simp only [blink]
  split_ifs with hcount hoff
  · exact ⟨_, .inl rfl⟩
  · refine ⟨(f.blink_array s).on_length, .inr ⟨_, rfl, ?_⟩⟩
    rw [shown_timed_xor, if_pos hoff]
    rfl
  · refine ⟨(f.blink_array s).off_length, .inr ⟨_, rfl, ?_⟩⟩
    rw [shown_timed_xor, if_neg hoff]
    rfl

/-- A round changes the time and the status of a structure, if anything. -/
theorem blink_timed (f : State) (s t : Slot) : ∃ countdown status,
    (blink f s).blink_array t = (f.blink_array t).timed countdown status := by
  obtain ⟨countdown, h | ⟨b, hb, h⟩⟩ := blink_cases f s
  · rw [h]
    by_cases hts : t = s
    · subst hts
      exact ⟨_, _, setBlink_self ..⟩
    · exact ⟨_, _, setBlink_of_ne hts⟩
  · rw [h]
    by_cases hts : t = s
    · subst hts
      exact ⟨_, _, (setBlink_self ..).trans hb⟩
    · exact ⟨_, _, setBlink_of_ne hts⟩

theorem blink_next (f : State) (s : Slot) : (blink f s).next = f.next := by
  funext t
  obtain ⟨countdown, status, h⟩ := blink_timed f s t
  rw [State.next, h]
  rfl

theorem blink_list_head (f : State) (s : Slot) :
    (blink f s).mp1_list_head = f.mp1_list_head := by
  obtain ⟨countdown, h | ⟨b, -, h⟩⟩ := blink_cases f s <;> rw [h] <;> rfl

/-- All rounds of a tick do no more. -/
theorem foldl_blink_timed (l : List Slot) (f : State) (t : Slot) : ∃ countdown status,
    (l.foldl blink f).blink_array t = (f.blink_array t).timed countdown status := by
  induction l generalizing f with
  | nil => exact ⟨_, _, rfl⟩
  | cons s l ih =>
    obtain ⟨c₁, st₁, h₁⟩ := blink_timed f s t
    obtain ⟨c₂, st₂, h₂⟩ := ih (blink f s)
    exact ⟨c₂, st₂, by rw [List.foldl_cons, h₂, h₁]; rfl⟩

theorem foldl_blink_list_head (l : List Slot) (f : State) :
    (l.foldl blink f).mp1_list_head = f.mp1_list_head := by
  induction l generalizing f with
  | nil => rfl
  | cons s l ih => rw [List.foldl_cons, ih, blink_list_head]

theorem taskletFrom_eq (h : IsChain f.next p l) (hn : l.length ≤ n) :
    taskletFrom n p f = some (l.foldl blink f) := by
  induction l generalizing f p n with
  | nil =>
    rw [h.head?]
    cases n <;> rfl
  | cons s l ih =>
    obtain ⟨m, rfl⟩ : ∃ m, n = m + 1 := ⟨n - 1, by rw [List.length_cons] at hn; omega⟩
    have hlen : l.length ≤ m := by rw [List.length_cons] at hn; omega
    have hnext : IsChain (blink f s).next ((blink f s).next s) l := by
      rw [blink_next]
      exact h.2
    rw [h.1, taskletFrom, List.foldl_cons]
    exact ih hnext hlen

/-- On a chain a tick ends, having gone through the structures in order. -/
theorem mp1_rtc_tasklet_eq (h : IsChain f.next f.mp1_list_head l) :
    mp1_rtc_tasklet f = some (l.foldl blink f) :=
  taskletFrom_eq h (chain_length_le h)

/-! ## Where the bound on the rounds comes from

A loop that ends, ends within the bound: it has gone along a chain. -/

theorem chain_of_taskletFrom (h : taskletFrom n p f = some f') : ∃ l, IsChain f.next p l := by
  induction n generalizing f p with
  | zero =>
    cases p with
    | none => exact ⟨[], rfl⟩
    | some s => cases h
  | succ n ih =>
    cases p with
    | none => exact ⟨[], rfl⟩
    | some s =>
      obtain ⟨l, hl⟩ := ih h
      rw [blink_next] at hl
      exact ⟨s :: l, rfl, (congrFun (blink_next f s) s) ▸ hl⟩

/-- If any number of rounds is enough for a tick, so is the bound. -/
theorem mp1_rtc_tasklet_of_rounds (h : taskletFrom n f.mp1_list_head f = some f') :
    mp1_rtc_tasklet f ≠ none := by
  obtain ⟨l, hl⟩ := chain_of_taskletFrom h
  rw [mp1_rtc_tasklet_eq hl]
  exact Option.some_ne_none _

/-- The links a search for a location follows. -/
def State.nextUnless (f : State) (location : UInt16) (s : Slot) : Option Slot :=
  if (f.blink_array s).location = location then none else f.next s

theorem chain_of_findFrom {r : Option Slot} (h : findFrom f location n p = some r) :
    ∃ l, IsChain (f.nextUnless location) p l := by
  induction n generalizing p with
  | zero =>
    cases p with
    | none => exact ⟨[], rfl⟩
    | some s => cases h
  | succ n ih =>
    cases p with
    | none => exact ⟨[], rfl⟩
    | some s =>
      rw [findFrom] at h
      by_cases hloc : (f.blink_array s).location = location
      · exact ⟨[s], rfl, if_pos hloc⟩
      · rw [if_neg hloc] at h
        obtain ⟨l, hl⟩ := ih h
        refine ⟨s :: l, rfl, ?_⟩
        rw [State.nextUnless, if_neg hloc]
        exact hl

theorem findFrom_of_chain (h : IsChain (f.nextUnless location) p l) (hn : l.length ≤ n) :
    findFrom f location n p ≠ none := by
  induction l generalizing p n with
  | nil =>
    rw [h.head?]
    cases n <;> exact Option.some_ne_none _
  | cons s l ih =>
    obtain ⟨m, rfl⟩ : ∃ m, n = m + 1 := ⟨n - 1, by rw [List.length_cons] at hn; omega⟩
    have hlen : l.length ≤ m := by rw [List.length_cons] at hn; omega
    rw [h.1, findFrom]
    split_ifs with hloc
    · exact Option.some_ne_none _
    · have hnext := h.2
      rw [State.nextUnless, if_neg hloc] at hnext
      exact ih hnext hlen

/-- And so it is for a search. -/
theorem mp1_find_helper_of_rounds {r : Option Slot}
    (h : findFrom f location n f.mp1_list_head = some r) : mp1_find_helper f location ≠ none := by
  obtain ⟨l, hl⟩ := chain_of_findFrom h
  exact findFrom_of_chain hl (chain_length_le hl)

/-! ## Unlinking -/

/-- The link after those of `l`. -/
def Link.after (link : Link) : List Slot → Link
  | [] => link
  | s :: l => Link.after (.next s) l

theorem findPrev_eq {link : Link} (h : IsChain f.next (link.load f) (l₁ ++ s :: l₂))
    (hs : s ∉ l₁) (hn : l₁.length ≤ n) : findPrev f s n link = some (link.after l₁) := by
  induction l₁ generalizing link n with
  | nil =>
    have hfound : link.load f = some s := h.head?
    cases n <;> rw [findPrev, if_pos hfound] <;> rfl
  | cons t l₁ ih =>
    obtain ⟨m, rfl⟩ : ∃ m, n = m + 1 := ⟨n - 1, by rw [List.length_cons] at hn; omega⟩
    have hlen : l₁.length ≤ m := by rw [List.length_cons] at hn; omega
    have hload : link.load f = some t := h.head?
    have hts : ¬ some t = some s := by
      intro heq
      exact hs (Option.some.inj heq ▸ List.mem_cons_self ..)
    rw [findPrev, hload, if_neg hts]
    exact ih h.2 (fun hmem => hs (List.mem_cons_of_mem _ hmem)) hlen

theorem load_store_self (f : State) (p : Option Slot) (link : Link) :
    link.load (link.store f p) = p := by
  cases link with
  | list_head => rfl
  | next s => simp [Link.load, Link.store]

theorem load_store_of_ne {link link' : Link} (h : link' ≠ link) (f : State)
    (p : Option Slot) : link'.load (link.store f p) = link'.load f := by
  cases link with
  | list_head =>
    cases link' with
    | list_head => exact absurd rfl h
    | next t => rfl
  | next s =>
    cases link' with
    | list_head => rfl
    | next t =>
      have hts : t ≠ s := fun hts => h (hts ▸ rfl)
      simp [Link.load, Link.store, hts]

/-- Behind a structure comes the link of one of those passed. -/
theorem after_next (t : Slot) (l : List Slot) :
    ∃ u ∈ t :: l, (Link.next t).after l = .next u := by
  induction l generalizing t with
  | nil => exact ⟨t, List.mem_cons_self .., rfl⟩
  | cons s l ih =>
    obtain ⟨u, hu, h⟩ := ih s
    exact ⟨u, List.mem_cons_of_mem _ hu, h⟩

/-- Storing the link of `s` where the pointer to `s` was takes `s` out of the chain. -/
theorem chain_store (link : Link) (h : IsChain f.next (link.load f) (l₁ ++ s :: l₂))
    (hlink : ∀ t ∈ l₁ ++ s :: l₂, link ≠ .next t) :
    IsChain ((link.after l₁).store f (f.next s)).next
      (link.load ((link.after l₁).store f (f.next s))) (l₁ ++ l₂) := by
  induction l₁ generalizing link with
  | nil =>
    rw [Link.after, load_store_self]
    refine h.2.congr fun t ht => ?_
    exact load_store_of_ne (hlink t (List.mem_cons_of_mem _ ht)).symm f (f.next s)
  | cons t l₁ ih =>
    have hnodup := List.nodup_cons.mp h.nodup
    have hrest := ih (.next t) h.2 fun u hu heq =>
      hnodup.1 (Link.next.inj heq ▸ hu)
    obtain ⟨u, hu, hafter⟩ := after_next t l₁
    have hne : link ≠ (Link.next t).after l₁ := by
      rw [hafter]
      refine hlink u ?_
      rw [List.cons_append]
      rcases List.mem_cons.mp hu with rfl | hu
      · exact List.mem_cons_self ..
      · exact List.mem_cons_of_mem _ (List.mem_append_left _ hu)
    refine ⟨?_, hrest⟩
    rw [Link.after, load_store_of_ne hne]
    exact h.1

end Kernel391.Fish
