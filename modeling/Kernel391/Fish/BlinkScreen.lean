import Kernel391.Fish.BlinkList

/-!
# The screen shows the blink states

Four routines draw: a new structure is drawn when it is added, a tick draws what it has
flipped, and `mp1_ioctl_sync` draws the structure it has overwritten. With one structure at
each location none of them draws over another, and the screen agrees with the list if each
draws what belongs there.

`mp1_ioctl_sync` chooses the character with `cmovl` after `testb $0x1`. The result of the
test is never negative, so that it always draws `off_char` (`syncChar_eq`).
-/

namespace Kernel391.Fish

open PointerChain TransitionSystem

variable {f f' : State} {s t : Slot} {l l₁ l₂ : List Slot} {user : BlinkStruct}
variable {src dest : Slot}

/-- On the list. -/
def Live (f : State) (s : Slot) : Prop :=
  ∃ l, IsChain f.next f.mp1_list_head l ∧ s ∈ l

/-- The character at each structure's location is the one of its status. -/
def ScreenOk (f : State) : Prop :=
  ∀ s, Live f s → f.video (offsetOf (f.blink_array s).location) = (f.blink_array s).shown

/-- What is added is at a place of its own, and not at location 0. -/
def Separate (f : State) : Request → Prop
  | .add user => user.location ≠ 0 ∧
      ∀ s, Live f s → (f.blink_array s).location ≠ user.location
  | _ => True

/-- The status copied has bit 0 clear, or both characters are the same. -/
def SyncsOff (f : State) : Request → Prop
  | .sync arg => ∀ src dest, Live f src → Live f dest →
      (f.blink_array src).location = (arg >>> 16).toUInt16 →
      (f.blink_array dest).location = (arg &&& 0xFFFF).toUInt16 →
      (f.blink_array src).status &&& 1 = 0 ∨
        (f.blink_array dest).on_char = (f.blink_array dest).off_char
  | _ => True

/-! ## The invariant -/

/-- The list is well formed, one structure is at each location, and it is shown. -/
structure Shows (f : State) (l : List Slot) : Prop where
  wf : WellFormed f l
  one : ∀ s ∈ l, ∀ t ∈ l, (f.blink_array s).location = (f.blink_array t).location → s = t
  shown : ∀ s ∈ l, f.video (offsetOf (f.blink_array s).location) = (f.blink_array s).shown

theorem WellFormed.live_iff (h : WellFormed f l) : Live f s ↔ s ∈ l := by
  constructor
  · rintro ⟨l', hl', hs⟩
    rwa [h.chain.unique hl']
  · exact fun hs => ⟨l, h.chain, hs⟩

theorem Shows.screenOk (h : Shows f l) : ScreenOk f :=
  fun s hs => h.shown s (h.wf.live_iff.mp hs)

theorem shows_init (h : fishSystem.init f) : Shows f [] where
  wf := wellFormed_init h
  one _ hs := absurd hs List.not_mem_nil
  shown _ hs := absurd hs List.not_mem_nil

theorem offsetOf_ne {a b : UInt16} (h : a ≠ b) : offsetOf a ≠ offsetOf b := by
  intro heq
  refine h (UInt16.toNat_inj.mp ?_)
  unfold offsetOf at heq
  omega

/-! ## Each request -/

theorem Shows.added (h : Shows f l) (hs : mp1_malloc f = some s)
    (hsep : Separate f (.add user)) : Shows (added f user s) (s :: l) := by
  have hfresh := h.wf.malloc_fresh hs
  have hother : ∀ t ∈ l, (f.blink_array t).location ≠ user.location :=
    fun t ht => hsep.2 t (h.wf.live_iff.mpr ht)
  have hne : ∀ t ∈ l, t ≠ s := fun t ht hts => hfresh (hts ▸ ht)
  refine ⟨h.wf.added hs hsep.1, fun a ha b hb hab => ?_, fun t ht => ?_⟩
  · rcases List.mem_cons.mp ha with rfl | ha'
    · rcases List.mem_cons.mp hb with rfl | hb'
      · rfl
      · rw [added_self, added_of_ne (hne b hb')] at hab
        exact absurd hab.symm (hother b hb')
    · rcases List.mem_cons.mp hb with rfl | hb'
      · rw [added_self, added_of_ne (hne a ha')] at hab
        exact absurd hab (hother a ha')
      · rw [added_of_ne (hne a ha'), added_of_ne (hne b hb')] at hab
        exact h.one a ha' b hb' hab
  · rcases List.mem_cons.mp ht with rfl | ht'
    · have hon : ¬ (1 : UInt16) &&& 1 = 0 := by decide
      have hchar : (user.entered f.mp1_list_head).shown = user.on_char := if_neg hon
      rw [added_self, hchar]
      exact Function.update_self ..
    · rw [added_of_ne (hne t ht'), ← h.shown t ht']
      exact Function.update_of_ne (offsetOf_ne (hother t ht')) ..

/-- What is left on the list keeps all but its link. -/
theorem removed_shown (h : t ≠ s) :
    ((removed f s l₁).blink_array t).shown = (f.blink_array t).shown := by
  rw [removed_of_ne h]
  cases Link.list_head.after l₁ with
  | list_head => rfl
  | next u =>
    by_cases htu : t = u
    · subst htu
      rw [Link.store, setBlink_self]
      rfl
    · rw [Link.store, setBlink_of_ne htu]

theorem removed_video (f : State) (s : Slot) (l₁ : List Slot) :
    (removed f s l₁).video = f.video := by
  rw [removed]
  cases Link.list_head.after l₁ <;> rfl

theorem Shows.removed (h : Shows f (l₁ ++ s :: l₂)) : Shows (removed f s l₁) (l₁ ++ l₂) := by
  have hs : s ∉ l₁ ++ l₂ := (List.nodup_middle.mp h.wf.chain.nodup).notMem
  have hne : ∀ t ∈ l₁ ++ l₂, t ≠ s := fun t ht hts => hs (hts ▸ ht)
  have hmem : ∀ t ∈ l₁ ++ l₂, t ∈ l₁ ++ s :: l₂ := by
    intro t ht
    rw [List.mem_append] at ht ⊢
    exact ht.imp_right (List.mem_cons_of_mem s)
  have hloc : ∀ t ∈ l₁ ++ l₂,
      ((Fish.removed f s l₁).blink_array t).location = (f.blink_array t).location := by
    intro t ht
    rw [removed_of_ne (hne t ht), store_location]
  refine ⟨h.wf.removed, fun a ha b hb hab => ?_, fun t ht => ?_⟩
  · rw [hloc a ha, hloc b hb] at hab
    exact h.one a (hmem a ha) b (hmem b hb) hab
  · rw [hloc t ht, removed_shown (hne t ht), removed_video]
    exact h.shown t (hmem t ht)

/-- One round of a tick. -/
theorem Shows.blink (h : Shows f l) (hs : s ∈ l) : Shows (blink f s) l := by
  have hloc : ∀ t, ((Fish.blink f s).blink_array t).location = (f.blink_array t).location := by
    intro t
    obtain ⟨countdown, status, ht⟩ := blink_timed f s t
    rw [ht]
    rfl
  refine ⟨h.wf.congr (blink_list_head f s) (blink_next f s) hloc, fun a ha b hb hab => ?_,
    fun t ht => ?_⟩
  · rw [hloc, hloc] at hab
    exact h.one a ha b hb hab
  · rw [hloc]
    obtain ⟨countdown, heq | ⟨b, hb, heq⟩⟩ := blink_cases f s
    · rw [heq]
      by_cases hts : t = s
      · subst hts
        rw [setBlink_self]
        exact h.shown t ht
      · rw [setBlink_of_ne hts]
        exact h.shown t ht
    · have hbloc : b.location = (f.blink_array s).location := by rw [hb]; rfl
      rw [heq]
      by_cases hts : t = s
      · subst hts
        rw [setBlink_self, ← hbloc]
        exact Function.update_self ..
      · have hdiff : (f.blink_array t).location ≠ b.location :=
          fun hab => hts (h.one t ht s hs (hab.trans hbloc))
        rw [setBlink_of_ne hts]
        exact (Function.update_of_ne (offsetOf_ne hdiff) ..).trans (h.shown t ht)

/-- A whole tick, by its rounds. -/
theorem Shows.foldl_blink (h : Shows f l) (l' : List Slot) (hsub : l' ⊆ l) :
    Shows (l'.foldl Fish.blink f) l := by
  induction l' generalizing f with
  | nil => exact h
  | cons s l' ih =>
    rw [List.cons_subset] at hsub
    exact ih (h.blink hsub.1) hsub.2

/-! ## Synchronisation -/

/-- The result of `testb $0x1` is 0 or 1, and `cmovl` never moves. -/
theorem syncChar_eq (b : BlinkStruct) : syncChar b = b.off_char := by
  have hbit : (b.status.toUInt8 &&& 1).toNat ≤ 1 := by
    rw [UInt8.toNat_and]
    exact Nat.and_le_right
  rw [syncChar, decide_eq_false (by omega)]
  rfl

theorem synced_video_self (f : State) (src dest : Slot) :
    (synced f src dest).video (offsetOf (f.blink_array dest).location)
      = (f.blink_array dest).off_char := by
  have hpoke : (synced f src dest).video (offsetOf (f.blink_array dest).location)
      = syncChar ((f.blink_array dest).sync (f.blink_array src)) := Function.update_self ..
  rw [hpoke, syncChar_eq]
  rfl

/-- The character that belongs there is another one if the new status is on. -/
theorem shown_sync_iff (a b : BlinkStruct) :
    (a.sync b).shown = a.off_char ↔ b.status &&& 1 = 0 ∨ a.on_char = a.off_char := by
  have hshown : (a.sync b).shown = if b.status &&& 1 = 0 then a.off_char else a.on_char := rfl
  rw [hshown]
  split_ifs with hoff
  · exact iff_of_true rfl (.inl hoff)
  · exact ⟨.inr, fun h => h.resolve_left hoff⟩

theorem Shows.synced (h : Shows f l) (hdest : dest ∈ l)
    (hoff : (f.blink_array src).status &&& 1 = 0 ∨
      (f.blink_array dest).on_char = (f.blink_array dest).off_char) :
    Shows (synced f src dest) l := by
  have hloc : ∀ t,
      ((Fish.synced f src dest).blink_array t).location = (f.blink_array t).location := by
    intro t
    by_cases htd : t = dest
    · subst htd
      rw [synced_self]
      rfl
    · rw [synced_of_ne htd]
  refine ⟨h.wf.synced src dest, fun a ha b hb hab => ?_, fun t ht => ?_⟩
  · rw [hloc, hloc] at hab
    exact h.one a ha b hb hab
  · rw [hloc]
    by_cases htd : t = dest
    · subst htd
      rw [synced_video_self, synced_self, (shown_sync_iff _ _).mpr hoff]
    · have hdiff : (f.blink_array t).location ≠ (f.blink_array dest).location :=
        fun hab => htd (h.one t ht dest hdest hab)
      rw [synced_of_ne htd, ← h.shown t ht]
      exact Function.update_of_ne (offsetOf_ne hdiff) ..

theorem not_screenOk_synced (h : Shows f l) (hdest : dest ∈ l)
    (hon : ¬ ((f.blink_array src).status &&& 1 = 0 ∨
      (f.blink_array dest).on_char = (f.blink_array dest).off_char)) :
    ¬ ScreenOk (synced f src dest) := by
  intro hok
  have hshown := hok dest ((h.wf.synced src dest).live_iff.mpr hdest)
  have hloc : ((synced f src dest).blink_array dest).location
      = (f.blink_array dest).location := by
    rw [synced_self]
    rfl
  rw [hloc, synced_video_self, synced_self] at hshown
  exact hon ((shown_sync_iff _ _).mp hshown.symm)

theorem atLocation_none {location : UInt16} (h : atLocation f l location = none) :
    ∀ s ∈ l, (f.blink_array s).location ≠ location := by
  intro s hs heq
  have hfail := List.find?_eq_none.mp h s hs
  exact hfail (beq_iff_eq.mpr heq)

/-- The condition is about the two structures that are found. -/
theorem Shows.syncsOff_iff {arg : UInt32} (h : Shows f l)
    (hsrc : atLocation f l (arg >>> 16).toUInt16 = some src)
    (hdest : atLocation f l (arg &&& 0xFFFF).toUInt16 = some dest) :
    SyncsOff f (.sync arg) ↔ (f.blink_array src).status &&& 1 = 0 ∨
      (f.blink_array dest).on_char = (f.blink_array dest).off_char := by
  obtain ⟨hsl, hsloc⟩ := atLocation_some hsrc
  obtain ⟨hdl, hdloc⟩ := atLocation_some hdest
  constructor
  · intro hok
    exact hok src dest (h.wf.live_iff.mpr hsl) (h.wf.live_iff.mpr hdl) hsloc hdloc
  · intro hoff a b ha hb haloc hbloc
    have has : a = src := h.one a (h.wf.live_iff.mp ha) src hsl (haloc.trans hsloc.symm)
    have hbd : b = dest := h.one b (h.wf.live_iff.mp hb) dest hdl (hbloc.trans hdloc.symm)
    rwa [has, hbd]

theorem Shows.syncsOff_of_none {arg : UInt32} (h : Shows f l)
    (hnone : atLocation f l (arg >>> 16).toUInt16 = none ∨
      atLocation f l (arg &&& 0xFFFF).toUInt16 = none) : SyncsOff f (.sync arg) := by
  intro a b ha hb haloc hbloc
  rcases hnone with hnone | hnone
  · exact absurd haloc (atLocation_none hnone a (h.wf.live_iff.mp ha))
  · exact absurd hbloc (atLocation_none hnone b (h.wf.live_iff.mp hb))

/-! ## Runs -/

/-- What a request does to a screen that shows the list: it shows it again, or a
synchronisation has drawn the wrong character. -/
theorem Shows.request (h : Shows f l) (e : Request) (hsep : Separate f e) : ∃ f',
    request f e = some f' ∧
      (SyncsOff f e ∧ (∃ l', Shows f' l') ∨ ¬ SyncsOff f e ∧ ¬ ScreenOk f') := by
  cases e with
  | add user =>
    refine ⟨_, rfl, .inl ⟨trivial, ?_⟩⟩
    rcases mp1_ioctl_add_cases f user with ⟨-, hadd⟩ | ⟨-, s, hs, hadd⟩
    · rw [hadd]
      exact ⟨l, h⟩
    · rw [hadd]
      exact ⟨_, h.added hs hsep⟩
  | remove arg =>
    rcases h.wf.remove_cases arg with ⟨-, hrem⟩ | ⟨s, l₁, l₂, -, rfl, hrem⟩
    · exact ⟨f, by rw [Fish.request, hrem]; rfl, .inl ⟨trivial, l, h⟩⟩
    · exact ⟨_, by rw [Fish.request, hrem]; rfl, .inl ⟨trivial, _, h.removed⟩⟩
  | find location => exact ⟨f, h.wf.find_ends location, .inl ⟨trivial, l, h⟩⟩
  | sync arg =>
    rcases h.wf.sync_cases arg with ⟨hnone, hsync⟩ | ⟨src, dest, hsrc, hdest, hsync⟩
    · exact ⟨f, by rw [Fish.request, hsync]; rfl, .inl ⟨h.syncsOff_of_none hnone, l, h⟩⟩
    · refine ⟨_, by rw [Fish.request, hsync]; rfl, ?_⟩
      have hdl := (atLocation_some hdest).1
      rw [h.syncsOff_iff hsrc hdest]
      by_cases hoff : (f.blink_array src).status &&& 1 = 0 ∨
          (f.blink_array dest).on_char = (f.blink_array dest).off_char
      · exact .inl ⟨hoff, l, h.synced hdl hoff⟩
      · exact .inr ⟨hoff, not_screenOk_synced h hdl hoff⟩
  | tick => exact ⟨_, h.wf.tick.1, .inl ⟨trivial, l, h.foldl_blink l (List.Subset.refl l)⟩⟩

theorem shows_of_reachable
    (h : fishSystem.ReachableWhere (fun f e => Separate f e ∧ SyncsOff f e) f) :
    ∃ l, Shows f l := by
  refine h.invariant (P := fun f => ∃ l, Shows f l)
    (fun f h0 => ⟨[], shows_init h0⟩) fun f e f' _ hshows hok hs => ?_
  obtain ⟨l, hl⟩ := hshows
  obtain ⟨f₁, hf₁, ⟨-, hgood⟩ | ⟨hbad, -⟩⟩ := hl.request e hok.1
  · rw [show f' = f₁ from Option.some.inj (hs.symm.trans hf₁)]
    exact hgood
  · exact absurd hok.2 hbad

/-- The screen shows the list in every state of a run that copies no status with bit 0 set,
and it does so after the next request exactly if that does not either. -/
theorem blink_screen_iff
    (h : fishSystem.ReachableWhere (fun f e => Separate f e ∧ SyncsOff f e) f) :
    ScreenOk f ∧ ∀ e, Separate f e → ∃ f', fishSystem.step f e = some f' ∧
      (ScreenOk f' ↔ SyncsOff f e) := by
  obtain ⟨l, hl⟩ := shows_of_reachable h
  refine ⟨hl.screenOk, fun e hsep => ?_⟩
  obtain ⟨f', hf', ⟨hok, l', hl'⟩ | ⟨hbad, hwrong⟩⟩ := hl.request e hsep
  · exact ⟨f', hf', fun _ => hok, fun _ => hl'.screenOk⟩
  · exact ⟨f', hf', fun h => absurd h hwrong, fun h => absurd h hbad⟩

theorem emptyTank_separate (location : UInt16) (h : location ≠ 0) :
    Separate emptyTank (.add (blinkAt location)) := by
  refine ⟨h, fun s hs => ?_⟩
  exact absurd ((wellFormed_init emptyTank_init).live_iff.mp hs) List.not_mem_nil

/-- One character added. -/
theorem blink_screen_sample : ScreenOk (mp1_ioctl_add emptyTank (blinkAt 540)).1 :=
  (blink_screen_iff (.step (e := .add (blinkAt 540)) (.init emptyTank_init)
    ⟨emptyTank_separate 540 (by decide), trivial⟩ rfl)).1

/-- Synchronised with itself right after it has been added, it is on and shown as off. -/
theorem blink_screen_wrong : ∃ f₁ f₂,
    Separate emptyTank (.add (blinkAt 540)) ∧
    fishSystem.step emptyTank (.add (blinkAt 540)) = some f₁ ∧
    fishSystem.step f₁ (.sync 0x021C021C) = some f₂ ∧ ¬ ScreenOk f₂ := by
  have hsep := emptyTank_separate 540 (by decide)
  have h0 : mp1_malloc emptyTank = some 0 :=
    mp1_malloc_eq_some_iff.mpr ⟨rfl, fun t ht => absurd ht (Fin.not_lt_zero t)⟩
  have hshows : Shows (added emptyTank (blinkAt 540) 0) [0] :=
    (shows_init emptyTank_init).added h0 hsep
  have hlive : Live (added emptyTank (blinkAt 540) 0) 0 :=
    hshows.wf.live_iff.mpr (List.mem_cons_self ..)
  obtain ⟨f₂, hf₂, ⟨hok, -⟩ | ⟨-, hwrong⟩⟩ :=
    hshows.request (.sync 0x021C021C) trivial
  · have hoff := hok 0 0 hlive hlive (by rw [added_self]; decide) (by rw [added_self]; decide)
    rw [added_self] at hoff
    exact absurd hoff (by decide)
  · exact ⟨_, f₂, hsep, request_add (blinkAt 540) h0 (by decide), hf₂, hwrong⟩

end Kernel391.Fish
