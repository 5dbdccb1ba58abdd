import Kernel391.Fish.Blink

/-!
# The blink list is well formed

`WellFormed f l` is the invariant: the list is the chain `l`, and a structure has location 0
exactly if it is off it. One lemma for each request says what it does to such a state, with
the loops already run.

A structure added at location 0, the upper left corner of the screen, looks free while it
is on the list: `mp1_malloc` hands it out again (`mp1_malloc_added_origin`), and linked in
a second time it points to itself.
-/

namespace Kernel391.Fish

open PointerChain TransitionSystem

variable {f f' : State} {s t : Slot} {l l₁ l₂ : List Slot} {user : BlinkStruct} {arg : UInt32}

/-! ## The invariant -/

structure WellFormed (f : State) (l : List Slot) : Prop where
  chain : IsChain f.next f.mp1_list_head l
  free : ∀ s, s ∉ l → (f.blink_array s).location = 0
  used : ∀ s ∈ l, (f.blink_array s).location ≠ 0

/-- It looks at links and locations only. -/
theorem WellFormed.congr (h : WellFormed f l) (hhead : f'.mp1_list_head = f.mp1_list_head)
    (hnext : f'.next = f.next)
    (hloc : ∀ s, (f'.blink_array s).location = (f.blink_array s).location) :
    WellFormed f' l where
  chain := by
    rw [hhead, hnext]
    exact h.chain
  free s hs := (hloc s).trans (h.free s hs)
  used s hs := fun h0 => h.used s hs ((hloc s).symm.trans h0)

theorem wellFormed_init (h : fishSystem.init f) : WellFormed f [] where
  chain := h.2
  free s _ := by rw [h.1 s]; rfl
  used s hs := absurd hs List.not_mem_nil

/-! ## Allocation -/

theorem mp1_malloc_eq_some_iff :
    mp1_malloc f = some s ↔
      (f.blink_array s).location = 0 ∧ ∀ t < s, (f.blink_array t).location ≠ 0 := by
  rw [mp1_malloc, Slots.find?_eq_some_iff]
  simp only [beq_iff_eq, beq_eq_false_iff_ne]

theorem mp1_malloc_eq_none_iff :
    mp1_malloc f = none ↔ ∀ t, (f.blink_array t).location ≠ 0 := by
  rw [mp1_malloc, Slots.find?_eq_none_iff]
  simp only [beq_eq_false_iff_ne]

/-- The structure handed out is not on the list. -/
theorem WellFormed.malloc_fresh (h : WellFormed f l) (hs : mp1_malloc f = some s) : s ∉ l :=
  fun hmem => h.used s hmem (mp1_malloc_eq_some_iff.mp hs).1

/-! ## Adding -/

/-- The user's structure as it is put in front of the list. -/
def BlinkStruct.entered (user : BlinkStruct) (head : Option Slot) : BlinkStruct :=
  { user with status := 1, countdown := user.on_length, next := head }

/-- The state after `user` has been added at `s`. -/
def added (f : State) (user : BlinkStruct) (s : Slot) : State where
  blink_array := Function.update f.blink_array s (user.entered f.mp1_list_head)
  mp1_list_head := some s
  video := Function.update f.video (offsetOf user.location) user.on_char

theorem mp1_ioctl_add_cases (f : State) (user : BlinkStruct) :
    (80 * 25 ≤ user.location.toNat ∨ mp1_malloc f = none) ∧ mp1_ioctl_add f user = (f, -1) ∨
    user.location.toNat < 80 * 25 ∧
      ∃ s, mp1_malloc f = some s ∧ mp1_ioctl_add f user = (added f user s, 0) := by
  unfold mp1_ioctl_add
  split_ifs with hloc
  · exact .inl ⟨.inl hloc, rfl⟩
  · cases hs : mp1_malloc f with
    | none => exact .inl ⟨.inr rfl, rfl⟩
    | some s => exact .inr ⟨not_le.mp hloc, s, rfl, rfl⟩

theorem request_add (user : BlinkStruct) (hs : mp1_malloc f = some s)
    (hloc : user.location.toNat < 80 * 25) :
    request f (.add user) = some (added f user s) := by
  obtain ⟨hfull, -⟩ | ⟨-, t, ht, hadd⟩ := mp1_ioctl_add_cases f user
  · rw [hs] at hfull
    exact absurd hfull (not_or.mpr ⟨not_le.mpr hloc, Option.some_ne_none s⟩)
  · rw [hs] at ht
    cases ht
    rw [request, hadd]

@[simp] theorem added_self (f : State) (user : BlinkStruct) (s : Slot) :
    (added f user s).blink_array s = user.entered f.mp1_list_head := Function.update_self ..

@[simp] theorem added_of_ne (h : t ≠ s) :
    (added f user s).blink_array t = f.blink_array t := Function.update_of_ne h ..

theorem WellFormed.added (h : WellFormed f l) (hs : mp1_malloc f = some s)
    (hloc : user.location ≠ 0) : WellFormed (added f user s) (s :: l) := by
  have hfresh := h.malloc_fresh hs
  refine ⟨?_, fun t ht => ?_, fun t ht => ?_⟩
  · refine h.chain.push hfresh ?_ fun t hts => ?_
    · rw [State.next, added_self]
      rfl
    · rw [State.next, added_of_ne hts]
      rfl
  · rw [List.mem_cons, not_or] at ht
    rw [added_of_ne ht.1]
    exact h.free t ht.2
  · by_cases hts : t = s
    · subst hts
      rw [added_self]
      exact hloc
    · rw [added_of_ne hts]
      exact h.used t ((List.mem_cons.mp ht).resolve_left hts)

/-- At location 0 it is handed out again. -/
theorem mp1_malloc_added_origin (hs : mp1_malloc f = some s) (hloc : user.location = 0) :
    mp1_malloc (added f user s) = some s := by
  obtain ⟨-, hbefore⟩ := mp1_malloc_eq_some_iff.mp hs
  refine mp1_malloc_eq_some_iff.mpr ⟨?_, fun t ht => ?_⟩
  · rw [added_self]
    exact hloc
  · rw [added_of_ne ht.ne]
    exact hbefore t ht

/-! ## Removing -/

/-- The state after `s` has been unlinked behind the structures `l₁`, and freed. -/
def removed (f : State) (s : Slot) (l₁ : List Slot) : State :=
  mp1_free ((Link.list_head.after l₁).store f (f.next s)) s

/-- The first structure of the list at a location. -/
def atLocation (f : State) (l : List Slot) (location : UInt16) : Option Slot :=
  l.find? fun s => (f.blink_array s).location == location

theorem atLocation_some {location : UInt16} (h : atLocation f l location = some s) :
    s ∈ l ∧ (f.blink_array s).location = location :=
  ⟨List.mem_of_find?_eq_some h, beq_iff_eq.mp
    (List.find?_some (p := fun t => (f.blink_array t).location == location) h)⟩

theorem WellFormed.find (h : WellFormed f l) (location : UInt16) :
    mp1_find_helper f location = some (atLocation f l location) :=
  mp1_find_helper_eq h.chain

theorem WellFormed.remove_cases (h : WellFormed f l) (arg : UInt32) :
    atLocation f l arg.toUInt16 = none ∧ mp1_ioctl_remove f arg = some (f, -1) ∨
    ∃ s l₁ l₂, atLocation f l arg.toUInt16 = some s ∧ l = l₁ ++ s :: l₂ ∧
      mp1_ioctl_remove f arg = some (removed f s l₁, 0) := by
  unfold mp1_ioctl_remove
  rw [h.find]
  cases hs : atLocation f l arg.toUInt16 with
  | none => exact .inl ⟨rfl, rfl⟩
  | some s =>
    right
    obtain ⟨l₁, l₂, hl⟩ := List.append_of_mem (atLocation_some hs).1
    refine ⟨s, l₁, l₂, rfl, hl, ?_⟩
    have hchain : IsChain f.next (Link.list_head.load f) (l₁ ++ s :: l₂) := hl ▸ h.chain
    have hs₁ : s ∉ l₁ := by
      have hnodup := List.nodup_append.mp hchain.nodup
      exact fun hmem => hnodup.2.2 s hmem s (List.mem_cons_self ..) rfl
    have hlen : l₁.length ≤ NUM_BLINK := by
      have htotal := chain_length_le hchain
      rw [List.length_append] at htotal
      omega
    have hprev := findPrev_eq hchain hs₁ hlen
    simp only [Option.bind_eq_bind, Option.bind_some, hprev]
    rfl

theorem store_location (f : State) (p : Option Slot) (link : Link) (t : Slot) :
    ((link.store f p).blink_array t).location = (f.blink_array t).location := by
  cases link with
  | list_head => rfl
  | next s =>
    by_cases hts : t = s
    · subst hts
      simp [Link.store]
    · simp [Link.store, hts]

theorem removed_self : (removed f s l₁).blink_array s = .zero := setBlink_self ..

theorem removed_of_ne (h : t ≠ s) :
    (removed f s l₁).blink_array t
      = ((Link.list_head.after l₁).store f (f.next s)).blink_array t := setBlink_of_ne h

theorem WellFormed.removed (h : WellFormed f (l₁ ++ s :: l₂)) :
    WellFormed (removed f s l₁) (l₁ ++ l₂) := by
  have hnodup := h.chain.nodup
  have hs : s ∉ l₁ ++ l₂ := (List.nodup_middle.mp hnodup).notMem
  have hmem : ∀ t, t ∈ l₁ ++ s :: l₂ ↔ t = s ∨ t ∈ l₁ ++ l₂ := by
    intro t
    rw [List.mem_append, List.mem_cons, List.mem_append]
    tauto
  have hloc : ∀ t, t ≠ s →
      ((Fish.removed f s l₁).blink_array t).location = (f.blink_array t).location := by
    intro t hts
    rw [removed_of_ne hts, store_location]
  have hchain := chain_store .list_head h.chain (fun t _ => by simp)
  refine ⟨hchain.congr fun t ht => ?_, fun t ht => ?_, fun t ht => ?_⟩
  · have hts : t ≠ s := fun hts => hs (hts ▸ ht)
    rw [State.next, removed_of_ne hts]
    rfl
  · by_cases hts : t = s
    · subst hts
      rw [removed_self]
      rfl
    · rw [hloc t hts]
      exact h.free t fun hmem' => ((hmem t).mp hmem').elim hts ht
  · have hts : t ≠ s := fun hts => hs (hts ▸ ht)
    rw [hloc t hts]
    exact h.used t ((hmem t).mpr (.inr ht))

/-! ## The other requests -/

theorem WellFormed.find_ends (h : WellFormed f l) (location : UInt16) :
    request f (.find location) = some f := by
  rw [request, mp1_ioctl_find, h.find]
  cases atLocation f l location <;> rfl

/-- The state after `dest` has been synchronised with `src`. -/
def synced (f : State) (src dest : Slot) : State :=
  let b := (f.blink_array dest).sync (f.blink_array src)
  mp1_poke (f.setBlink dest b) (syncChar b) (offsetOf b.location)

theorem WellFormed.sync_cases (h : WellFormed f l) (arg : UInt32) :
    (atLocation f l (arg >>> 16).toUInt16 = none ∨
      atLocation f l (arg &&& 0xFFFF).toUInt16 = none) ∧
      mp1_ioctl_sync f arg = some (f, -1) ∨
    ∃ src dest, atLocation f l (arg >>> 16).toUInt16 = some src ∧
      atLocation f l (arg &&& 0xFFFF).toUInt16 = some dest ∧
      mp1_ioctl_sync f arg = some (synced f src dest, 0) := by
  unfold mp1_ioctl_sync
  rw [h.find, h.find]
  cases hsrc : atLocation f l (arg >>> 16).toUInt16 with
  | none => exact .inl ⟨.inl rfl, rfl⟩
  | some src =>
    cases hdest : atLocation f l (arg &&& 0xFFFF).toUInt16 with
    | none => exact .inl ⟨.inr rfl, rfl⟩
    | some dest => exact .inr ⟨src, dest, rfl, rfl, rfl⟩

theorem synced_self (f : State) (src dest : Slot) :
    (synced f src dest).blink_array dest = (f.blink_array dest).sync (f.blink_array src) :=
  setBlink_self ..

theorem synced_of_ne {src dest : Slot} (h : t ≠ dest) :
    (synced f src dest).blink_array t = f.blink_array t := setBlink_of_ne h

theorem WellFormed.synced (h : WellFormed f l) (src dest : Slot) :
    WellFormed (synced f src dest) l := by
  refine h.congr rfl ?_ fun t => ?_
  · funext t
    by_cases hts : t = dest
    · subst hts
      rw [State.next, synced_self]
      rfl
    · rw [State.next, synced_of_ne hts]
      rfl
  · by_cases hts : t = dest
    · subst hts
      rw [synced_self]
      rfl
    · rw [synced_of_ne hts]

theorem WellFormed.tick (h : WellFormed f l) :
    mp1_rtc_tasklet f = some (l.foldl blink f) ∧ WellFormed (l.foldl blink f) l := by
  refine ⟨mp1_rtc_tasklet_eq h.chain, h.congr (foldl_blink_list_head l f) ?_ fun t => ?_⟩
  · funext t
    obtain ⟨countdown, status, ht⟩ := foldl_blink_timed l f t
    rw [State.next, ht]
    rfl
  · obtain ⟨countdown, status, ht⟩ := foldl_blink_timed l f t
    rw [ht]
    rfl

/-! ## Runs -/

/-- Nothing is added at location 0 while a structure is free. -/
def NotAtOrigin (f : State) : Request → Prop
  | .add user => user.location = 0 → ∀ s, (f.blink_array s).location ≠ 0
  | _ => True

/-- Every request ends. It keeps the list well formed, or it adds a structure that still
looks free. -/
theorem WellFormed.request (h : WellFormed f l) (e : Request) : ∃ f',
    request f e = some f' ∧
      (NotAtOrigin f e ∧ (∃ l', WellFormed f' l') ∨
        ¬ NotAtOrigin f e ∧ ∃ user s, user.location = 0 ∧ mp1_malloc f = some s ∧
          f' = Fish.added f user s) := by
  cases e with
  | add user =>
    refine ⟨_, rfl, ?_⟩
    rcases mp1_ioctl_add_cases f user with ⟨hfull, hadd⟩ | ⟨-, s, hs, hadd⟩
    · rw [hadd]
      refine .inl ⟨fun hloc => ?_, l, h⟩
      rcases hfull with hlarge | hnone
      · rw [hloc] at hlarge
        exact absurd hlarge (by decide)
      · exact mp1_malloc_eq_none_iff.mp hnone
    · rw [hadd]
      by_cases hloc : user.location = 0
      · refine .inr ⟨fun hok => ?_, user, s, hloc, hs, rfl⟩
        exact hok hloc s (mp1_malloc_eq_some_iff.mp hs).1
      · exact .inl ⟨fun h0 => absurd h0 hloc, _, h.added hs hloc⟩
  | remove arg =>
    rcases h.remove_cases arg with ⟨-, hrem⟩ | ⟨s, l₁, l₂, -, rfl, hrem⟩
    · exact ⟨f, by rw [Fish.request, hrem]; rfl, .inl ⟨trivial, l, h⟩⟩
    · exact ⟨_, by rw [Fish.request, hrem]; rfl, .inl ⟨trivial, _, h.removed⟩⟩
  | find location => exact ⟨f, h.find_ends location, .inl ⟨trivial, l, h⟩⟩
  | sync arg =>
    rcases h.sync_cases arg with ⟨-, hsync⟩ | ⟨src, dest, -, -, hsync⟩
    · exact ⟨f, by rw [Fish.request, hsync]; rfl, .inl ⟨trivial, l, h⟩⟩
    · exact ⟨_, by rw [Fish.request, hsync]; rfl, .inl ⟨trivial, l, h.synced src dest⟩⟩
  | tick => exact ⟨_, h.tick.1, .inl ⟨trivial, l, h.tick.2⟩⟩

/-- What is to hold of the list: a chain of different structures, those off it free, those
on it not handed out, and both loops over it end. -/
structure ListOk (f : State) : Prop where
  chain : ∃ l : List Slot, IsChain f.next f.mp1_list_head l ∧ l.Nodup ∧
    (∀ s, s ∉ l → (f.blink_array s).location = 0) ∧ ∀ s ∈ l, mp1_malloc f ≠ some s
  tasklet_ends : mp1_rtc_tasklet f ≠ none
  find_ends : ∀ location, mp1_find_helper f location ≠ none

theorem WellFormed.listOk (h : WellFormed f l) : ListOk f where
  chain := ⟨l, h.chain, h.chain.nodup, h.free, fun _ hs hmalloc => h.malloc_fresh hmalloc hs⟩
  tasklet_ends := by
    rw [h.tick.1]
    exact Option.some_ne_none _
  find_ends location := by
    rw [h.find]
    exact Option.some_ne_none _

theorem not_listOk_added (hs : mp1_malloc f = some s) (hloc : user.location = 0) :
    ¬ ListOk (added f user s) := by
  intro h
  obtain ⟨l, hchain, -, -, hkept⟩ := h.chain
  cases l with
  | nil => cases hchain
  | cons t l =>
    have hts : s = t := Option.some.inj hchain.1
    subst hts
    exact hkept s (List.mem_cons_self ..) (mp1_malloc_added_origin hs hloc)

/-- The list of every run. -/
theorem wellFormed_of_reachable (h : fishSystem.ReachableWhere NotAtOrigin f) :
    ∃ l, WellFormed f l := by
  refine h.invariant (P := fun f => ∃ l, WellFormed f l)
    (fun f h0 => ⟨[], wellFormed_init h0⟩) fun f e f' _ hwf hok hs => ?_
  obtain ⟨l, hl⟩ := hwf
  obtain ⟨f₁, hf₁, ⟨-, hgood⟩ | ⟨hbad, -⟩⟩ := hl.request e
  · rw [show f' = f₁ from Option.some.inj (hs.symm.trans hf₁)]
    exact hgood
  · exact absurd hok hbad

/-- The list is well formed in every state of a run that adds nothing at location 0, and it
stays so with the next request exactly if that does not either. -/
theorem blink_list_iff (h : fishSystem.ReachableWhere NotAtOrigin f) :
    ListOk f ∧ ∀ e, ∃ f', fishSystem.step f e = some f' ∧ (ListOk f' ↔ NotAtOrigin f e) := by
  obtain ⟨l, hl⟩ := wellFormed_of_reachable h
  refine ⟨hl.listOk, fun e => ?_⟩
  obtain ⟨f', hf', ⟨hok, l', hl'⟩ | ⟨hbad, user, s, hloc, hs, rfl⟩⟩ := hl.request e
  · exact ⟨f', hf', fun _ => hok, fun _ => hl'.listOk⟩
  · exact ⟨_, hf', fun h => absurd h (not_listOk_added hs hloc), fun h => absurd h hbad⟩

/-- The program before the first request, over a blank screen. -/
def emptyTank : State where
  blink_array _ := .zero
  mp1_list_head := none
  video _ := 0x20

theorem emptyTank_init : fishSystem.init emptyTank := ⟨fun _ => rfl, rfl⟩

/-- A character at a location, as `main` fills in the structure. -/
def blinkAt (location : UInt16) : BlinkStruct :=
  { BlinkStruct.zero with
    location := location
    on_char := 'I'.toUInt8
    off_char := 'M'.toUInt8
    on_length := 7
    off_length := 6 }

/-- Two characters added. -/
theorem blink_list_sample :
    ListOk (mp1_ioctl_add (mp1_ioctl_add emptyTank (blinkAt 540)).1 (blinkAt 541)).1 :=
  have h₁ : fishSystem.ReachableWhere NotAtOrigin (mp1_ioctl_add emptyTank (blinkAt 540)).1 :=
    .step (e := .add (blinkAt 540)) (.init emptyTank_init) (fun h => absurd h (by decide)) rfl
  (blink_list_iff (.step (e := .add (blinkAt 541)) h₁ (fun h => absurd h (by decide)) rfl)).1

/-- A structure that points to itself is gone round for ever. -/
theorem tasklet_cycle (h : f.next s = some s) (n : ℕ) : taskletFrom n (some s) f = none := by
  by_contra hends
  obtain ⟨f', hf'⟩ := Option.ne_none_iff_exists'.mp hends
  obtain ⟨l, hl⟩ := chain_of_taskletFrom hf'
  obtain ⟨l', rfl, hl'⟩ := hl.pop
  rw [h] at hl'
  have hlen := congrArg List.length (hl.unique hl')
  rw [List.length_cons] at hlen
  omega

/-- After a first structure at location 0 the list is not as it should be; after a second
one the tick does not end. -/
theorem blink_list_cycle : ∃ f₁ f₂,
    fishSystem.step emptyTank (.add (blinkAt 0)) = some f₁ ∧ ¬ ListOk f₁ ∧
    fishSystem.step f₁ (.add (blinkAt 0)) = some f₂ ∧
    ∀ n, taskletFrom n f₂.mp1_list_head f₂ = none := by
  have h0 : mp1_malloc emptyTank = some 0 :=
    mp1_malloc_eq_some_iff.mpr ⟨rfl, fun t ht => absurd ht (Fin.not_lt_zero t)⟩
  have h1 : mp1_malloc (added emptyTank (blinkAt 0) 0) = some 0 :=
    mp1_malloc_added_origin h0 rfl
  refine ⟨_, _, request_add (blinkAt 0) h0 (by decide), not_listOk_added h0 rfl,
    request_add (blinkAt 0) h1 (by decide), fun n => ?_⟩
  refine tasklet_cycle ?_ n
  rw [State.next, added_self]
  rfl

end Kernel391.Fish
