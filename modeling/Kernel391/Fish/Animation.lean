import Kernel391.Fish.BlinkScreen
import Kernel391.Fish.Frames

/-!
# The animation of `fish` (`fish.c`, `blink.S`)

`add_frames` adds every character for 15 ticks of the first picture and 15 of the second. So the
right half of the screen shows one picture and then the other, for as long as the clock ticks
(`frames_shown`), and the rest of the screen stays as it was.
-/

namespace Kernel391.Fish

variable {f f₀ : State} {s t : Slot} {l : List Slot} {b : BlinkStruct} {structs : List BlinkStruct}
variable {d n q r a : ℕ}

/-! ## One structure -/

/-- The structure `n` ticks after it was added, when its times are both `d`. -/
def BlinkStruct.after (b : BlinkStruct) (d n : ℕ) : BlinkStruct :=
  b.timed (UInt16.ofNat (d - n % d)) (if n / d % 2 = 0 then 1 else 0)

theorem after_add (hr : r < d) :
    b.after d (d * q + r) = b.timed (UInt16.ofNat (d - r)) (if q % 2 = 0 then 1 else 0) := by
  unfold BlinkStruct.after
  rw [Nat.mul_add_mod, Nat.mod_eq_of_lt hr, Nat.mul_add_div (by omega), Nat.div_eq_of_lt hr,
    Nat.add_zero]

/-- A positive countdown, as the signed number it is compared as. -/
theorem pos_toInt16_iff {k : ℕ} (hk : k < 2 ^ 15) : 0 < (UInt16.ofNat k).toInt16 ↔ 0 < k := by
  have hsize : Int16.size = 2 ^ 16 := rfl
  have hsigned : (k : ℤ).bmod Int16.size = k := Int.bmod_eq_of_le (by omega) (by omega)
  rw [Int16.lt_iff_toInt_lt]
  simp [hsigned]

theorem blink_array_of_ne (h : t ≠ s) : (blink f s).blink_array t = f.blink_array t := by
  obtain ⟨countdown, heq | ⟨b, -, heq⟩⟩ := blink_cases f s
  · rw [heq, setBlink_of_ne h]
  · rw [heq]
    exact setBlink_of_ne h

/-- A round, for a structure with the same time for both characters. -/
theorem blink_after (hd : 0 < d) (hd' : d < 2 ^ 15) (hon : b.on_length = UInt16.ofNat d)
    (hoff : b.off_length = UInt16.ofNat d) (h : f.blink_array s = b.after d n) :
    (blink f s).blink_array s = b.after d (n + 1) := by
  obtain ⟨q, r, hr, rfl⟩ : ∃ q r, r < d ∧ n = d * q + r :=
    ⟨n / d, n % d, Nat.mod_lt n hd, (Nat.div_add_mod n d).symm⟩
  rw [after_add hr] at h
  have hcount : UInt16.ofNat (d - r) - 1 = UInt16.ofNat (d - r - 1) :=
    (UInt16.ofNat_sub (show 1 ≤ d - r by omega)).symm
  have hleft : 0 < (UInt16.ofNat (d - r) - 1).toInt16 ↔ 0 < d - r - 1 := by
    rw [hcount]
    exact pos_toInt16_iff (by omega)
  unfold blink
  rw [h]
  dsimp only [BlinkStruct.timed]
  by_cases hlast : 0 < d - r - 1
  · rw [if_pos (hleft.mpr hlast), setBlink_self, Nat.add_assoc, after_add (by omega), hcount,
      Nat.sub_sub]
    rfl
  · -- the time is over, and the other character comes
    have hnext : d * q + r + 1 = d * (q + 1) + 0 := by
      rw [Nat.mul_succ]
      omega
    rw [if_neg fun hpos => hlast (hleft.mp hpos), hnext, after_add hd, Nat.sub_zero]
    rcases Nat.mod_two_eq_zero_or_one q with hq | hq
    · rw [if_pos hq, if_neg (show ¬ (q + 1) % 2 = 0 by omega), if_neg (by decide), setBlink_self]
      show b.timed b.off_length (1 ^^^ 1) = _
      rw [hoff]
      rfl
    · rw [if_neg (show ¬ q % 2 = 0 by omega), if_pos (show (q + 1) % 2 = 0 by omega),
        if_pos (by decide), setBlink_self]
      show b.timed b.on_length (0 ^^^ 1) = _
      rw [hon]
      rfl

/-- The character that is shown then. -/
theorem shown_after : (b.after d n).shown = if n / d % 2 = 0 then b.on_char else b.off_char := by
  unfold BlinkStruct.after BlinkStruct.shown
  dsimp only [BlinkStruct.timed]
  split_ifs with h hbit hbit
  · exact absurd hbit (by decide)
  · rfl
  · rfl
  · exact absurd hbit (by decide)

/-! ## A tick -/

theorem foldl_blink_notMem (hs : s ∉ l) : (l.foldl blink f).blink_array s = f.blink_array s := by
  induction l generalizing f with
  | nil => rfl
  | cons t l ih =>
    rw [List.mem_cons, not_or] at hs
    rw [List.foldl_cons, ih hs.2, blink_array_of_ne hs.1]

theorem foldl_blink_after (hd : 0 < d) (hd' : d < 2 ^ 15) (hon : b.on_length = UInt16.ofNat d)
    (hoff : b.off_length = UInt16.ofNat d) (hnodup : l.Nodup) (hs : s ∈ l)
    (h : f.blink_array s = b.after d n) :
    (l.foldl blink f).blink_array s = b.after d (n + 1) := by
  induction l generalizing f with
  | nil => exact absurd hs List.not_mem_nil
  | cons t l ih =>
    rw [List.nodup_cons] at hnodup
    rw [List.foldl_cons]
    by_cases hst : s = t
    · subst hst
      rw [foldl_blink_notMem hnodup.1]
      exact blink_after hd hd' hon hoff h
    · refine ih hnodup.2 ((List.mem_cons.mp hs).resolve_left hst) ?_
      rw [blink_array_of_ne hst]
      exact h

theorem blink_location (s t : Slot) :
    ((blink f s).blink_array t).location = (f.blink_array t).location := by
  obtain ⟨countdown, status, h⟩ := blink_timed f s t
  rw [h]
  rfl

theorem blink_video_of_ne (h : a ≠ offsetOf (f.blink_array s).location) :
    (blink f s).video a = f.video a := by
  obtain ⟨countdown, heq | ⟨b, hb, heq⟩⟩ := blink_cases f s
  · rw [heq]
    rfl
  · rw [heq]
    refine Function.update_of_ne ?_ _ _
    rw [hb]
    exact h

/-- A tick draws where the structures are. -/
theorem foldl_blink_video (h : ∀ s ∈ l, a ≠ offsetOf (f.blink_array s).location) :
    (l.foldl blink f).video a = f.video a := by
  induction l generalizing f with
  | nil => rfl
  | cons s l ih =>
    rw [List.forall_mem_cons] at h
    rw [List.foldl_cons, ih, blink_video_of_ne h.1]
    intro t ht
    rw [blink_location]
    exact h.2 t ht

/-! ## The tank -/

/-- Structures that can be added together: on the screen, not at its top left corner, and each at
a place of its own. -/
structure Placed (structs : List BlinkStruct) : Prop where
  place : ∀ b ∈ structs, b.location.toNat ≠ 0 ∧ b.location.toNat < NUM_BLINK
  length : ∀ b ∈ structs, b.on_length = 15 ∧ b.off_length = 15
  apart : structs.Pairwise fun a b => a.location ≠ b.location

/-- The structures are on the list, as they are `n` ticks after the last was added, and nothing
else is; the rest of the screen is as it was. -/
structure Tank (f₀ f : State) (structs : List BlinkStruct) (n : ℕ) (l : List Slot) : Prop where
  shows : Shows f l
  each : ∀ b ∈ structs, ∃ s ∈ l, ∃ next,
    f.blink_array s = BlinkStruct.after { b with next := next } 15 n
  only : ∀ s ∈ l, ∃ b ∈ structs, (f.blink_array s).location = b.location
  elsewhere : ∀ a, (∀ b ∈ structs, a ≠ offsetOf b.location) → f.video a = f₀.video a

theorem tank_init (h : fishSystem.init f) : Tank f f [] 0 [] where
  shows := shows_init h
  each _ hb := absurd hb List.not_mem_nil
  only _ hs := absurd hs List.not_mem_nil
  elsewhere _ _ := rfl

/-- There is a free structure, as there are more structures than places other than 0. -/
theorem malloc_of_shows (h : Shows f l)
    (hplace : ∀ s ∈ l, (f.blink_array s).location.toNat < NUM_BLINK) :
    ∃ s, mp1_malloc f = some s := by
  rw [← Option.ne_none_iff_exists']
  intro hnone
  have hused := mp1_malloc_eq_none_iff.mp hnone
  have hall : ∀ s, s ∈ l := fun s => by_contra fun hs => hused s (h.wf.free s hs)
  have hpos : ∀ s, 0 < (f.blink_array s).location.toNat := fun s =>
    Nat.pos_of_ne_zero fun h0 => hused s (UInt16.toNat_inj.mp h0)
  have hlt : ∀ s, (f.blink_array s).location.toNat - 1 < NUM_BLINK - 1 := fun s => by
    have hs := hplace s (hall s)
    have hs' := hpos s
    omega
  let place : Slot → Fin (NUM_BLINK - 1) := fun s => ⟨_, hlt s⟩
  have hinjective : Function.Injective place := by
    intro s t hst
    have heq := congrArg Fin.val hst
    dsimp only [place] at heq
    have hs := hpos s
    have ht := hpos t
    exact h.one s (hall s) t (hall t) (UInt16.toNat_inj.mp (by omega))
  have hcard := Fintype.card_le_of_injective place hinjective
  rw [Fintype.card_fin, Fintype.card_fin] at hcard
  exact absurd hcard (by decide)

/-- One more structure. -/
theorem Tank.add (h : Tank f₀ f structs 0 l) (hplaced : Placed (structs ++ [b])) :
    ∃ l', Tank f₀ (mp1_ioctl_add f b).1 (structs ++ [b]) 0 l' := by
  have hb : b ∈ structs ++ [b] := List.mem_append_right _ (List.mem_singleton_self b)
  have hapart : ∀ c ∈ structs, c.location ≠ b.location := by
    have hpairs := List.pairwise_append.mp hplaced.apart
    exact fun c hc => hpairs.2.2 c hc b (List.mem_singleton_self b)
  obtain ⟨h0, hlt⟩ := hplaced.place b hb
  obtain ⟨hon, -⟩ := hplaced.length b hb
  have hloc : b.location ≠ 0 := fun heq => h0 (by rw [heq]; rfl)
  have hother : ∀ s ∈ l, (f.blink_array s).location ≠ b.location := by
    intro s hs
    obtain ⟨c, hc, heq⟩ := h.only s hs
    rw [heq]
    exact hapart c hc
  obtain ⟨s, hs⟩ := malloc_of_shows h.shows fun t ht => by
    obtain ⟨c, hc, heq⟩ := h.only t ht
    rw [heq]
    exact (hplaced.place c (List.mem_append_left _ hc)).2
  have hadd : (mp1_ioctl_add f b).1 = added f b s := by
    have hreq := request_add b hs hlt
    rw [request, Option.some.injEq] at hreq
    exact hreq
  have hfresh := h.shows.wf.malloc_fresh hs
  have hne : ∀ t ∈ l, t ≠ s := fun t ht hts => hfresh (hts ▸ ht)
  have hsep : Separate f (.add b) :=
    ⟨hloc, fun t ht => hother t (h.shows.wf.live_iff.mp ht)⟩
  rw [hadd]
  refine ⟨s :: l, h.shows.added hs hsep, ?_, ?_, ?_⟩
  · intro c hc
    rcases List.mem_append.mp hc with hc | hc
    · obtain ⟨t, ht, next, heq⟩ := h.each c hc
      refine ⟨t, List.mem_cons_of_mem _ ht, next, ?_⟩
      rw [added_of_ne (hne t ht)]
      exact heq
    · rw [List.mem_singleton] at hc
      refine ⟨s, List.mem_cons_self, f.mp1_list_head, ?_⟩
      rw [added_self, hc, BlinkStruct.entered, hon]
      rfl
  · intro t ht
    rcases List.mem_cons.mp ht with rfl | ht
    · exact ⟨b, hb, by rw [added_self]; rfl⟩
    · obtain ⟨c, hc, heq⟩ := h.only t ht
      refine ⟨c, List.mem_append_left _ hc, ?_⟩
      rw [added_of_ne (hne t ht)]
      exact heq
  · intro a ha
    rw [← h.elsewhere a fun c hc => ha c (List.mem_append_left _ hc)]
    exact Function.update_of_ne (ha b hb) _ _

/-- All of them. -/
theorem Tank.addAll (hplaced : Placed structs) (h : fishSystem.init f) :
    ∃ l, Tank f (addAll f structs) structs 0 l := by
  induction structs using List.reverseRecOn with
  | nil => exact ⟨[], tank_init h⟩
  | append_singleton structs b ih =>
    obtain ⟨l, hl⟩ := ih ⟨fun c hc => hplaced.place c (List.mem_append_left _ hc),
      fun c hc => hplaced.length c (List.mem_append_left _ hc),
      (List.pairwise_append.mp hplaced.apart).1⟩
    rw [addAll_append]
    exact hl.add hplaced

/-- A tick. -/
theorem Tank.tick (h : Tank f₀ f structs n l) (hplaced : Placed structs) :
    ∃ f', mp1_rtc_tasklet f = some f' ∧ Tank f₀ f' structs (n + 1) l := by
  refine ⟨l.foldl blink f, h.shows.wf.tick.1, h.shows.foldl_blink l (List.Subset.refl l), ?_, ?_,
    ?_⟩
  · intro b hb
    obtain ⟨s, hs, next, heq⟩ := h.each b hb
    obtain ⟨hon, hoff⟩ := hplaced.length b hb
    exact ⟨s, hs, next, foldl_blink_after (by decide) (by decide) hon hoff
      h.shows.wf.chain.nodup hs heq⟩
  · intro s hs
    obtain ⟨countdown, status, heq⟩ := foldl_blink_timed l f s
    rw [heq]
    exact h.only s hs
  · intro a ha
    rw [← h.elsewhere a ha]
    refine foldl_blink_video fun s hs => ?_
    obtain ⟨b, hb, heq⟩ := h.only s hs
    rw [heq]
    exact ha b hb

/-- `n` ticks of the clock. -/
def ticks : ℕ → State → Option State
  | 0, f => some f
  | n + 1, f => (ticks n f).bind mp1_rtc_tasklet

/-- Any number of ticks. -/
theorem Tank.ticks (h : Tank f₀ f structs 0 l) (hplaced : Placed structs) (n : ℕ) :
    ∃ f', ticks n f = some f' ∧ Tank f₀ f' structs n l := by
  induction n with
  | zero => exact ⟨f, rfl, h⟩
  | succ n ih =>
    obtain ⟨f₁, hf₁, htank⟩ := ih
    obtain ⟨f₂, hf₂, htank'⟩ := htank.tick hplaced
    refine ⟨f₂, ?_, htank'⟩
    rw [Fish.ticks, hf₁]
    exact hf₂

/-- What is seen of a structure. -/
theorem Tank.video (h : Tank f₀ f structs n l) (hb : b ∈ structs) :
    f.video (offsetOf b.location) = if n / 15 % 2 = 0 then b.on_char else b.off_char := by
  obtain ⟨s, hs, next, heq⟩ := h.each b hb
  have hshown := h.shows.shown s hs
  rw [heq, shown_after] at hshown
  exact hshown

/-! ## The pictures -/

/-- The two pictures fit into the right half of the screen. -/
structure FitsScreen (lines : List (List UInt8)) : Prop where
  rows : lines.length ≤ 25
  columns : ∀ line ∈ lines, line.length ≤ 40

section
variable {blink_struct : BlinkStruct} {lines lines0 lines1 : List (List UInt8)} {row col : ℕ}

/-- The character of a place, in video memory. -/
def placeOffset (row col : ℕ) : ℕ := 2 * (row * 80 + col + 40)

theorem FitsScreen.line (h : FitsScreen lines) (row : ℕ) : (lines.getD row []).length ≤ 40 := by
  rw [List.getD_eq_getElem?_getD]
  cases hline : lines[row]? with
  | none => exact Nat.zero_le 40
  | some line => exact h.columns line (List.mem_of_getElem? hline)

/-- Something to be seen is within the picture. -/
theorem inside_of_seen (h : frameChar lines row col ≠ SPACE) :
    row < lines.length ∧ col < (lines.getD row []).length := by
  unfold frameChar at h
  constructor
  · by_contra hrow
    rw [List.getD_eq_default _ _ (Nat.le_of_not_lt hrow)] at h
    exact h rfl
  · by_contra hcol
    rw [List.getD_eq_default _ _ (Nat.le_of_not_lt hcol)] at h
    exact h rfl

theorem placeStruct_eq_some_iff : placeStruct blink_struct lines0 lines1 row col = some b ↔
    (frameChar lines0 row col ≠ SPACE ∨ frameChar lines1 row col ≠ SPACE) ∧
      b = { blink_struct with
        on_char := frameChar lines0 row col
        off_char := frameChar lines1 row col
        location := UInt16.ofNat (row * 80 + col + 40) } := by
  unfold placeStruct
  split_ifs with hnone
  · simp [hnone.1, hnone.2]
  · rw [Option.some.injEq]
    exact ⟨fun h => ⟨not_and_or.mp hnone, h.symm⟩, fun h => h.2.symm⟩

/-- The structures are those of all places where something is to be seen. -/
theorem mem_allStructs : b ∈ allStructs blink_struct lines0 lines1 ↔ ∃ row col,
    placeStruct { blink_struct with on_length := 15, off_length := 15 } lines0 lines1 row col =
      some b := by
  unfold allStructs frameStructs rowStructs
  simp only [List.mem_flatMap, List.mem_filterMap, List.mem_range]
  constructor
  · rintro ⟨row, -, col, -, h⟩
    exact ⟨row, col, h⟩
  · rintro ⟨row, col, h⟩
    have hseen := (placeStruct_eq_some_iff.mp h).1
    have hinside : row < max lines0.length lines1.length ∧ col < width lines0 lines1 row := by
      unfold width
      rcases hseen with hseen | hseen
      · have hin := inside_of_seen hseen
        omega
      · have hin := inside_of_seen hseen
        omega
    exact ⟨row, hinside.1, col, hinside.2, h⟩

/-- Where a structure is. -/
theorem placeStruct_location (h0 : FitsScreen lines0) (h1 : FitsScreen lines1)
    (h : placeStruct blink_struct lines0 lines1 row col = some b) :
    row < 25 ∧ col < 40 ∧ b.location.toNat = row * 80 + col + 40 := by
  obtain ⟨hseen, rfl⟩ := placeStruct_eq_some_iff.mp h
  have hline0 := h0.line row
  have hline1 := h1.line row
  have hrows0 := h0.rows
  have hrows1 := h1.rows
  have hinside : row < 25 ∧ col < 40 := by
    rcases hseen with hseen | hseen
    · have hin := inside_of_seen hseen
      omega
    · have hin := inside_of_seen hseen
      omega
  refine ⟨hinside.1, hinside.2, ?_⟩
  dsimp only
  rw [UInt16.toNat_ofNat', Nat.mod_eq_of_lt (by omega)]

theorem placed_allStructs (h0 : FitsScreen lines0) (h1 : FitsScreen lines1) :
    Placed (allStructs blink_struct lines0 lines1) where
  place b hb := by
    obtain ⟨row, col, hplace⟩ := mem_allStructs.mp hb
    obtain ⟨hrow, hcol, hloc⟩ := placeStruct_location h0 h1 hplace
    have hsize : NUM_BLINK = 2000 := rfl
    omega
  length b hb := by
    obtain ⟨row, col, hplace⟩ := mem_allStructs.mp hb
    obtain ⟨-, rfl⟩ := placeStruct_eq_some_iff.mp hplace
    exact ⟨rfl, rfl⟩
  apart := by
    have hdiff : ∀ {row col row' col' a b},
        placeStruct { blink_struct with on_length := 15, off_length := 15 } lines0 lines1
          row col = some a →
        placeStruct { blink_struct with on_length := 15, off_length := 15 } lines0 lines1
          row' col' = some b →
        row < row' ∨ row = row' ∧ col < col' → a.location ≠ b.location := by
      intro row col row' col' a b ha hb hbefore heq
      obtain ⟨-, hcol, hloc⟩ := placeStruct_location h0 h1 ha
      obtain ⟨-, -, hloc'⟩ := placeStruct_location h0 h1 hb
      rw [heq] at hloc
      omega
    unfold allStructs frameStructs rowStructs
    rw [List.pairwise_flatMap]
    constructor
    · intro row _
      rw [List.pairwise_filterMap]
      refine List.pairwise_lt_range.imp fun hlt a ha b hb => ?_
      exact hdiff ha hb (.inr ⟨rfl, hlt⟩)
    · refine List.pairwise_lt_range.imp fun hlt a ha b hb => ?_
      obtain ⟨col, -, hcol⟩ := List.mem_filterMap.mp ha
      obtain ⟨col', -, hcol'⟩ := List.mem_filterMap.mp hb
      exact hdiff hcol hcol' (.inl hlt)

end

/-- The blinking characters of two pictures that fit into the right half of the screen show, after
any number of ticks, the first picture for 15 ticks and the second for 15, at every place where
one of them has something. Nothing else on the screen changes. -/
theorem frames_shown {f : State} (hinit : fishSystem.init f) {lines0 lines1 : List (List UInt8)}
    (h0 : FitsScreen lines0) (h1 : FitsScreen lines1) (blink_struct : BlinkStruct) (n : ℕ) :
    ∃ f', ticks n (addAll f (allStructs blink_struct lines0 lines1)) = some f' ∧
      (∀ row col, frameChar lines0 row col ≠ SPACE ∨ frameChar lines1 row col ≠ SPACE →
        f'.video (placeOffset row col) =
          if n / 15 % 2 = 0 then frameChar lines0 row col else frameChar lines1 row col) ∧
      ∀ a, (∀ row col, a = placeOffset row col →
          frameChar lines0 row col = SPACE ∧ frameChar lines1 row col = SPACE) →
        f'.video a = f.video a := by
  have hplaced : Placed (allStructs blink_struct lines0 lines1) := placed_allStructs h0 h1
  obtain ⟨l, htank⟩ := Tank.addAll hplaced hinit
  obtain ⟨f', hf', htank'⟩ := htank.ticks hplaced n
  refine ⟨f', hf', fun row col hseen => ?_, fun a ha => ?_⟩
  · obtain ⟨b, hb⟩ : ∃ b, placeStruct { blink_struct with on_length := 15, off_length := 15 }
        lines0 lines1 row col = some b := ⟨_, placeStruct_eq_some_iff.mpr ⟨hseen, rfl⟩⟩
    have hvideo := htank'.video (mem_allStructs.mpr ⟨row, col, hb⟩)
    have hloc := (placeStruct_location h0 h1 hb).2.2
    obtain ⟨-, rfl⟩ := placeStruct_eq_some_iff.mp hb
    unfold offsetOf at hvideo
    rw [hloc] at hvideo
    exact hvideo
  · refine htank'.elsewhere a fun b hb heq => ?_
    obtain ⟨row, col, hplace⟩ := mem_allStructs.mp hb
    have hloc := (placeStruct_location h0 h1 hplace).2.2
    unfold offsetOf at heq
    rw [hloc] at heq
    obtain ⟨hblank0, hblank1⟩ := ha row col heq
    rcases (placeStruct_eq_some_iff.mp hplace).1 with hseen | hseen
    · exact hseen hblank0
    · exact hseen hblank1

/-- Two pictures of one character and of two, five ticks into the second one. -/
theorem frames_shown_sample : ∃ f',
    ticks 20 (addAll emptyTank (allStructs .zero [[0x6f], [SPACE, 0x6f]] [[0x2f]])) = some f' ∧
      f'.video (placeOffset 0 0) = 0x2f ∧ f'.video (placeOffset 1 1) = SPACE := by
  have h0 : FitsScreen [[0x6f], [SPACE, 0x6f]] := ⟨by decide, by decide⟩
  have h1 : FitsScreen [[0x2f]] := ⟨by decide, by decide⟩
  obtain ⟨f', hf', hshown, -⟩ := frames_shown emptyTank_init h0 h1 .zero 20
  refine ⟨f', hf', (hshown 0 0 (.inl (by decide))).trans (by decide), ?_⟩
  exact (hshown 1 1 (.inl (by decide))).trans (by decide)

end Kernel391.Fish
