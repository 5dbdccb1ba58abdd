import Kernel391.NumberFormats

/-!
# Where `printf` stops

A format is a list of directives (`directives`): characters to print, and conversions with
their `#`s in front. A format may end inside a conversion, after a `%` and any number of
`#`s; the last directive is then `unfinished`.

`scan_spec` follows both loops of `printf` along the bytes of the format. At an unfinished
conversion the inner switch reads the NUL, takes it for a conversion that is not supported,
and the outer loop steps over it.
-/

namespace Kernel391

open Trace

/-! ## Formats -/

inductive Directive
  | text (c : UInt8)
  | convert (alternate : Bool) (c : UInt8)
  | unfinished
deriving DecidableEq, Repr

/-- Between directives, or inside a conversion. -/
inductive ScanMode
  | text
  | conversion (alternate : Bool)

def directives : ScanMode → List UInt8 → List Directive
  | .text, [] => []
  | .conversion _, [] => [.unfinished]
  | .text, c :: l =>
    if c = '%'.toUInt8 then directives (.conversion false) l
    else .text c :: directives .text l
  | .conversion alternate, c :: l =>
    if c = '#'.toUInt8 then directives (.conversion true) l
    else .convert alternate c :: directives .text l

/-- The character of a conversion that takes an argument. -/
def Directive.argument : Directive → Option UInt8
  | .convert _ c => if takesArgument c then some c else none
  | _ => none

/-- The conversions that take arguments, in the order of the format. -/
def arguments (ds : List Directive) : List UInt8 := ds.filterMap Directive.argument

/-- What is printed, with the first argument at a word of the stack. -/
def PrintfCall.output (call : PrintfCall) : ℕ → List Directive → List UInt8
  | _, [] => []
  | esp, .text c :: ds => c :: call.output esp ds
  | esp, .convert alternate c :: ds =>
    if takesArgument c then
      (call.convert alternate c (call.args esp)).getD [] ++ call.output (esp + 1) ds
    else if c = '%'.toUInt8 then c :: call.output esp ds
    else call.output esp ds
  | esp, .unfinished :: ds => call.output esp ds

/-- The arguments of `%s` from a word of the stack on point to strings. -/
def PrintfCall.StringsFrom (call : PrintfCall) (esp : ℕ) (kinds : List UInt8) : Prop :=
  ∀ k, kinds[k]? = some 's'.toUInt8 →
    ∃ n < addressSpace, call.memory (call.args (esp + k)) n = 0

/-! ## The three kinds of events -/

def PrintfEvent.offset : PrintfEvent → Option ℕ
  | .read offset => some offset
  | _ => none

def PrintfEvent.index : PrintfEvent → Option ℕ
  | .take index => some index
  | _ => none

def PrintfEvent.char : PrintfEvent → Option UInt8
  | .put c => some c
  | _ => none

def readsOf (events : List PrintfEvent) : List ℕ := events.filterMap PrintfEvent.offset

def takesOf (events : List PrintfEvent) : List ℕ := events.filterMap PrintfEvent.index

def putsOf (events : List PrintfEvent) : List UInt8 := events.filterMap PrintfEvent.char

variable {call : PrintfCall} {buf esp rounds : ℕ} {l : List UInt8} {c : UInt8}
variable {ds : List Directive}

theorem putsOf_map_put (out : List UInt8) : putsOf (out.map .put) = out := by
  rw [putsOf, List.filterMap_map]
  exact List.filterMap_some

theorem takesOf_map_put (out : List UInt8) : takesOf (out.map .put) = [] := by
  rw [takesOf, List.filterMap_map]
  exact List.filterMap_eq_nil_iff.mpr fun _ _ => rfl

theorem readsOf_map_put (out : List UInt8) : readsOf (out.map .put) = [] := by
  rw [readsOf, List.filterMap_map]
  exact List.filterMap_eq_nil_iff.mpr fun _ _ => rfl

/-! ## Scanning -/

/-- A scan from an offset on that ends at the NUL: the offset it returns, the bytes it
reads, the arguments it takes and what it prints. -/
structure Scanned (call : PrintfCall) (buf esp len : ℕ) (ds : List Directive)
    (x : Traced PrintfEvent ℕ) : Prop where
  result : x.result = some (buf + len)
  reads : ∀ i ∈ readsOf x.events, i ≤ buf + len
  takes : takesOf x.events = List.range' esp (arguments ds).length
  puts : putsOf x.events = call.output esp ds

/-- The right end, or a step over the NUL. -/
def ScanSpec (call : PrintfCall) (buf esp len : ℕ) (ds : List Directive)
    (x : Traced PrintfEvent ℕ) : Prop :=
  .unfinished ∉ ds ∧ Scanned call buf esp len ds x ∨
    .unfinished ∈ ds ∧ buf + len + 1 ∈ readsOf x.events

/-- The string in memory from an offset on is `l`. -/
structure StringFrom (mem : Bytes) (k : ℕ) (l : List UInt8) : Prop where
  get : ∀ i c, l[i]? = some c → mem (k + i) = c ∧ c ≠ 0
  nul : mem (k + l.length) = 0

theorem StringFrom.head {format : Bytes} (h : StringFrom format buf (c :: l)) :
    format buf = c ∧ c ≠ 0 := h.get 0 c rfl

theorem StringFrom.tail {format : Bytes} (h : StringFrom format buf (c :: l)) :
    StringFrom format (buf + 1) l where
  get i d hd := by
    rw [Nat.add_right_comm]
    exact h.get (i + 1) d hd
  nul := by
    have hnul := h.nul
    rwa [List.length_cons, ← Nat.add_assoc, Nat.add_right_comm] at hnul

/-- An argument of the right kind is printed. -/
theorem convert_ne_none {alternate : Bool} {word : UInt32} (hc : takesArgument c = true)
    (hs : c = 's'.toUInt8 → ∃ n < addressSpace, call.memory word n = 0) :
    ∃ out, call.convert alternate c word = some out := by
  unfold PrintfCall.convert
  split_ifs with hx hu hd hchar
  · cases alternate with
    | false => exact ⟨_, printHex_eq ..⟩
    | true => exact ⟨_, printHex_alternate_eq ..⟩
  · exact ⟨_, printUnsigned_eq ..⟩
  · exact ⟨_, printSigned_eq ..⟩
  · exact ⟨_, rfl⟩
  · have hstring : c = 's'.toUInt8 := by
      unfold takesArgument at hc
      simpa [hx, hu, hd, hchar] using hc
    obtain ⟨n, hn, hnul⟩ := hs hstring
    have hend : call.memory word (strlen (call.memory word)) = 0 := by
      have hstop : (call.memory word (strlen (call.memory word)) != 0) = false :=
        scan_stop (p := (· != 0)) (Nat.zero_le n) (by omega) (bne_eq_false_iff_eq.mpr hnul)
      simpa using hstop
    exact ⟨_, if_pos hend⟩

/-- Another read, not past the NUL. -/
theorem ScanSpec.read {len : ℕ} {x : Traced PrintfEvent ℕ}
    (h : ScanSpec call buf esp len ds x) {i : ℕ} (hi : i ≤ buf + len) :
    ScanSpec call buf esp len ds (Traced.emit (.read i) >>= fun _ => x) := by
  rcases h with ⟨hno, hresult, hreads, htakes, hputs⟩ | ⟨hyes, hread⟩
  · refine .inl ⟨hno, hresult, fun j hj => ?_, htakes, hputs⟩
    have hcons : j = i ∨ j ∈ readsOf x.events := List.mem_cons.mp hj
    exact hcons.elim (fun h => h ▸ hi) (hreads j)
  · exact .inr ⟨hyes, List.mem_cons_of_mem i hread⟩

/-- One byte on. -/
theorem ScanSpec.shift {len : ℕ} {x : Traced PrintfEvent ℕ}
    (h : ScanSpec call (buf + 1) esp len ds x) : ScanSpec call buf esp (len + 1) ds x := by
  have hsum : buf + 1 + len = buf + (len + 1) := by omega
  rcases h with ⟨hno, hresult, hreads, htakes, hputs⟩ | ⟨hyes, hread⟩
  · rw [hsum] at hresult hreads
    exact .inl ⟨hno, hresult, hreads, htakes, hputs⟩
  · rw [hsum] at hread
    exact .inr ⟨hyes, hread⟩

/-- A directive carried out, with the events `es`. -/
theorem ScanSpec.carryOut {len esp' : ℕ} {x : Traced PrintfEvent ℕ} {d : Directive}
    (es : List PrintfEvent) (h : ScanSpec call buf esp' len ds x) (hd : d ≠ .unfinished)
    (hreads : readsOf es = [])
    (htakes : takesOf es ++ List.range' esp' (arguments ds).length
      = List.range' esp (arguments (d :: ds)).length)
    (hputs : putsOf es ++ call.output esp' ds = call.output esp (d :: ds)) :
    ScanSpec call buf esp len (d :: ds) (Traced.emits es >>= fun _ => x) := by
  have hevents : (Traced.emits es >>= fun _ => x).events = es ++ x.events := rfl
  have hread : readsOf (es ++ x.events) = readsOf x.events := by
    rw [readsOf, List.filterMap_append]
    exact (congrArg (· ++ _) hreads).trans (List.nil_append _)
  rcases h with ⟨hno, hresult, hr, ht, hp⟩ | ⟨hyes, hr⟩
  · refine .inl ⟨?_, hresult, ?_, ?_, ?_⟩
    · exact fun hmem => (List.mem_cons.mp hmem).elim (fun h => hd h.symm) hno
    · rw [hevents, hread]
      exact hr
    · rw [hevents, takesOf, List.filterMap_append, ← htakes]
      exact congrArg (takesOf es ++ ·) ht
    · rw [hevents, putsOf, List.filterMap_append, ← hputs]
      exact congrArg (putsOf es ++ ·) hp
  · refine .inr ⟨List.mem_cons_of_mem _ hyes, ?_⟩
    rw [hevents, hread]
    exact hr

theorem arguments_text (c : UInt8) (ds : List Directive) :
    arguments (.text c :: ds) = arguments ds := rfl

theorem arguments_convert (alternate : Bool) (c : UInt8) (ds : List Directive) :
    arguments (.convert alternate c :: ds)
      = if takesArgument c then c :: arguments ds else arguments ds := by
  rw [arguments, List.filterMap_cons, Directive.argument]
  split_ifs <;> rfl

/-- Where the arguments of the rest of a format start. -/
def Directive.next (esp : ℕ) : Directive → ℕ
  | .convert _ c => if takesArgument c then esp + 1 else esp
  | _ => esp

theorem PrintfCall.StringsFrom.tail {alternate : Bool}
    (h : call.StringsFrom esp (arguments (.convert alternate c :: ds))) :
    call.StringsFrom (Directive.next esp (.convert alternate c)) (arguments ds) := by
  rw [arguments_convert] at h
  rw [Directive.next]
  split_ifs at h ⊢ with hc
  · intro k hk
    rw [Nat.add_assoc, Nat.add_comm 1 k]
    exact h (k + 1) hk
  · exact h

/-- The inner switch at a conversion's own character: the byte is read, the conversion is
carried out, and the scan goes on behind it. -/
theorem ScanSpec.switch {len rest : ℕ} {alternate : Bool}
    (hchar : call.format buf = c) (hhash : c ≠ '#'.toUInt8)
    (hstrings : call.StringsFrom esp (arguments (.convert alternate c :: ds)))
    (h : ScanSpec call (buf + 1) (Directive.next esp (.convert alternate c)) len ds
      (printfFrom call rest (buf + 1) (Directive.next esp (.convert alternate c)))) :
    ScanSpec call buf esp (len + 1) (.convert alternate c :: ds)
      (formatCharSwitch call (rounds + 1) alternate buf esp >>= fun p =>
        printfFrom call rest (p.1 + 1) p.2) := by
  have hargs := arguments_convert alternate c ds
  rw [formatCharSwitch, Traced.bind_assoc, hchar]
  refine ScanSpec.read ?_ (by omega)
  by_cases htakes : takesArgument c = true
  · have hpercent : c ≠ '%'.toUInt8 := by
      rintro rfl
      exact absurd htakes (by decide)
    obtain ⟨out, hout⟩ : ∃ out, call.convert alternate c (call.args esp) = some out := by
      refine convert_ne_none htakes fun hs => ?_
      refine hstrings 0 ?_
      rw [hargs, if_pos htakes, hs]
      rfl
    rw [Directive.next, if_pos htakes] at h
    rw [if_neg hpercent, if_neg hhash, if_pos htakes, hout]
    simp only [Traced.bind_assoc, Traced.pure_bind]
    refine h.shift.carryOut (.take esp :: out.map .put) ?_ (readsOf_map_put out) ?_ ?_
    · exact Directive.noConfusion
    · rw [hargs, if_pos htakes, List.length_cons, List.range'_succ]
      exact congrArg (fun t => esp :: (t ++ _)) (takesOf_map_put out)
    · rw [PrintfCall.output, if_pos htakes, hout]
      exact congrArg (· ++ _) (putsOf_map_put out)
  · have hkeep : Directive.next esp (.convert alternate c) = esp := if_neg htakes
    rw [hkeep] at h
    rw [if_neg htakes] at hargs
    by_cases hpercent : c = '%'.toUInt8
    · rw [if_pos hpercent]
      refine h.shift.carryOut [.put '%'.toUInt8] Directive.noConfusion rfl (by rw [hargs]; rfl) ?_
      rw [PrintfCall.output, if_neg htakes, if_pos hpercent, hpercent]
      rfl
    · rw [if_neg hpercent, if_neg hhash, if_neg htakes]
      refine h.shift.carryOut [] Directive.noConfusion rfl (by rw [hargs]; rfl) ?_
      rw [PrintfCall.output, if_neg htakes, if_neg hpercent]
      rfl

/-- Both loops, along the bytes that are left: the outer one between directives, and the
inner one inside a conversion with the outer one behind it. -/
theorem scan_spec (hformat : StringFrom call.format buf l) :
    (∀ rounds esp, l.length < rounds → call.StringsFrom esp (arguments (directives .text l)) →
      ScanSpec call buf esp l.length (directives .text l) (printfFrom call rounds buf esp)) ∧
    ∀ rounds rest alternate esp, l.length < rounds → l.length < rest →
      call.StringsFrom esp (arguments (directives (.conversion alternate) l)) →
      ScanSpec call buf esp l.length (directives (.conversion alternate) l)
        (formatCharSwitch call rounds alternate buf esp >>= fun p =>
          printfFrom call rest (p.1 + 1) p.2) := by
  induction l generalizing buf with
  | nil =>
    have hnul : call.format buf = 0 := hformat.nul
    constructor
    · intro rounds esp hrounds _
      obtain ⟨r, rfl⟩ := Nat.exists_eq_add_one_of_ne_zero (show rounds ≠ 0 by omega)
      rw [printfFrom, if_pos hnul]
      refine .inl ⟨List.not_mem_nil, rfl, fun i hi => ?_, rfl, rfl⟩
      exact (List.mem_singleton.mp hi).le
    · -- the NUL is taken for a conversion, and the next byte is read
      intro rounds rest alternate esp hrounds hrest _
      obtain ⟨r, rfl⟩ := Nat.exists_eq_add_one_of_ne_zero (show rounds ≠ 0 by omega)
      obtain ⟨r', rfl⟩ := Nat.exists_eq_add_one_of_ne_zero (show rest ≠ 0 by omega)
      rw [formatCharSwitch, hnul, if_neg (by decide), if_neg (by decide), if_neg (by decide)]
      refine .inr ⟨List.mem_cons_self .., ?_⟩
      exact List.mem_cons_of_mem buf (List.mem_cons_self ..)
  | cons c l ih =>
    obtain ⟨ihText, ihConversion⟩ := ih hformat.tail
    obtain ⟨hchar, hne⟩ := hformat.head
    constructor
    · intro rounds esp hrounds hstrings
      obtain ⟨r, rfl⟩ := Nat.exists_eq_add_one_of_ne_zero (show rounds ≠ 0 by omega)
      rw [List.length_cons] at hrounds
      rw [printfFrom, hchar, if_neg hne]
      rw [directives] at hstrings ⊢
      refine ScanSpec.read ?_ (by omega)
      split_ifs at hstrings ⊢ with hpercent
      · exact (ihConversion (r + 1) r false esp (by omega) (by omega) hstrings).shift
      · refine (ihText r esp (by omega) hstrings).shift.carryOut [.put c]
          Directive.noConfusion rfl ?_ rfl
        rw [arguments_text]
        rfl
    · intro rounds rest alternate esp hrounds hrest hstrings
      obtain ⟨r, rfl⟩ := Nat.exists_eq_add_one_of_ne_zero (show rounds ≠ 0 by omega)
      rw [List.length_cons] at hrounds hrest
      rw [directives] at hstrings ⊢
      split_ifs at hstrings ⊢ with hhash
      · rw [formatCharSwitch, Traced.bind_assoc, hchar, if_neg (by rw [hhash]; decide),
          if_pos hhash]
        refine ScanSpec.read ?_ (by omega)
        exact (ihConversion r rest true esp (by omega) (by omega) hstrings).shift
      · exact ScanSpec.switch hchar hhash hstrings (ihText rest _ (by omega) hstrings.tail)

/-! ## `printf` -/

/-- The whole call. -/
theorem printf_spec (hformat : StringFrom call.format 0 l) (hlen : l.length < addressSpace)
    (hstrings : call.StringsFrom 0 (arguments (directives .text l))) :
    ScanSpec call 0 0 l.length (directives .text l) (printfFrom call (addressSpace + 1) 0 0) :=
  (scan_spec hformat).1 _ _ (by omega) hstrings

theorem printf_events (call : PrintfCall) :
    (printf call).events = (printfFrom call (addressSpace + 1) 0 0).events := by
  rw [printf, Traced.events_bind]
  cases (printfFrom call (addressSpace + 1) 0 0).result <;> exact List.append_nil _

theorem printf_result (call : PrintfCall) :
    (printf call).result = (printfFrom call (addressSpace + 1) 0 0).result.map toInt32 := by
  rw [printf, Traced.result_bind]
  cases (printfFrom call (addressSpace + 1) 0 0).result <;> rfl

/-- A format that does not end inside a conversion is printed. -/
theorem printf_output (hformat : StringFrom call.format 0 l) (hlen : l.length < addressSpace)
    (hstrings : call.StringsFrom 0 (arguments (directives .text l)))
    (hfinished : .unfinished ∉ directives .text l) :
    (printf call).result = some (toInt32 l.length) ∧
      putsOf (printf call).events = call.output 0 (directives .text l) := by
  rw [printf_result, printf_events]
  rcases printf_spec hformat hlen hstrings with ⟨-, h⟩ | ⟨hopen, -⟩
  · rw [h.result, Nat.zero_add]
    exact ⟨rfl, h.puts⟩
  · exact absurd hopen hfinished

/-- What is to hold of a call with the format `l`: no byte behind the NUL is read, the
arguments taken are one for each conversion that prints one, and the length is returned. -/
structure StopsAtEnd (call : PrintfCall) (l : List UInt8) : Prop where
  reads : ∀ i ∈ readsOf (printf call).events, i ≤ l.length
  takes : takesOf (printf call).events = List.range (arguments (directives .text l)).length
  returns : (printf call).result = some (l.length : ℤ)

theorem not_stopsAtEnd (hformat : StringFrom call.format 0 l) (hlen : l.length < addressSpace)
    (hstrings : call.StringsFrom 0 (arguments (directives .text l)))
    (hopen : .unfinished ∈ directives .text l) : ¬ StopsAtEnd call l := by
  intro h
  rcases printf_spec hformat hlen hstrings with ⟨hno, -⟩ | ⟨-, hread⟩
  · exact hno hopen
  · rw [← printf_events] at hread
    have hle := h.reads _ hread
    omega

theorem toInt32_eq_self_iff {n : ℕ} (hn : n < addressSpace) : toInt32 n = n ↔ n < 2 ^ 31 := by
  constructor
  · intro h
    rw [toInt32, Int.bmod_def] at h
    unfold addressSpace at h hn
    split_ifs at h <;> omega
  · exact toInt32_eq

/-- `printf` stops at the end of its format exactly if that is not inside a conversion, and
its length is one an `int32_t` can hold. -/
theorem printf_stops_iff (hformat : StringFrom call.format 0 l) (hlen : l.length < addressSpace)
    (hstrings : call.StringsFrom 0 (arguments (directives .text l))) :
    StopsAtEnd call l ↔ .unfinished ∉ directives .text l ∧ l.length < 2 ^ 31 := by
  constructor
  · intro h
    have hfinished : .unfinished ∉ directives .text l :=
      fun hopen => not_stopsAtEnd hformat hlen hstrings hopen h
    have hreturn := (printf_output hformat hlen hstrings hfinished).1
    rw [h.returns, Option.some.injEq] at hreturn
    exact ⟨hfinished, (toInt32_eq_self_iff hlen).mp hreturn.symm⟩
  · rintro ⟨hfinished, hshort⟩
    have hreturn := (printf_output hformat hlen hstrings hfinished).1
    rw [toInt32_eq hshort] at hreturn
    rcases printf_spec hformat hlen hstrings with ⟨-, h⟩ | ⟨hopen, -⟩
    · refine ⟨fun i hi => ?_, ?_, hreturn⟩
      · rw [printf_events] at hi
        have hle := h.reads i hi
        omega
      · rw [printf_events, h.takes, List.range_eq_range']
    · exact absurd hopen hfinished

theorem StringFrom.of_holdsString {mem : Bytes} {chars : List Char} (h : HoldsString mem chars)
    (h0 : 0 ∉ chars.map Char.toUInt8) : StringFrom mem 0 (chars.map Char.toUInt8) where
  get i c hc := by
    have hmem := List.mem_of_getElem? hc
    rw [List.getElem?_map, Option.map_eq_some_iff] at hc
    obtain ⟨d, hd, rfl⟩ := hc
    rw [Nat.zero_add]
    exact ⟨h.1 i d hd, ne_of_mem_of_not_mem hmem h0⟩
  nul := by
    rw [Nat.zero_add, List.length_map]
    exact h.2

/-- A call with a format and the arguments 42. -/
def callOf (format : List Char) : PrintfCall where
  format := literal format fun _ => 0
  args _ := 42
  memory _ _ := 0
  conv_buf _ := 0

theorem callOf_format {format : List Char} (h0 : 0 ∉ format.map Char.toUInt8) :
    StringFrom (callOf format).format 0 (format.map Char.toUInt8) :=
  .of_holdsString (literal_holds format _) h0

theorem callOf_strings (format : List Char) (kinds : List UInt8) :
    (callOf format).StringsFrom 0 kinds :=
  fun _ _ => ⟨0, by decide, rfl⟩

/-- Two numbers and an unsupported conversion. -/
theorem printf_stops_sample :
    StopsAtEnd (callOf ['%', 'u', ' ', '%', '#', 'x', '%', 'h'])
      [0x25, 0x75, 0x20, 0x25, 0x23, 0x78, 0x25, 0x68] :=
  (printf_stops_iff (callOf_format (by decide)) (by decide) (callOf_strings _ _)).mpr
    ⟨by decide, by decide⟩

/-- A percent sign at the end. -/
theorem printf_overruns : ¬ StopsAtEnd (callOf ['5', '0', '%']) [0x35, 0x30, 0x25] :=
  not_stopsAtEnd (callOf_format (by decide)) (by decide) (callOf_strings _ _) (by decide)

/-! ## Numbers -/

/-- The text of a word in each of the number conversions. -/
inductive NumberText (word : UInt32) : Bool → Char → List UInt8 → Prop
  | unsigned {alternate : Bool} {l : List UInt8} :
    IsNumeral 10 word.toNat l → NumberText word alternate 'u' l
  | negative {alternate : Bool} {l : List UInt8} :
    word.toInt32.toInt < 0 → IsNumeral 10 word.toInt32.toInt.natAbs l →
      NumberText word alternate 'd' ('-'.toUInt8 :: l)
  | nonnegative {alternate : Bool} {l : List UInt8} :
    0 ≤ word.toInt32.toInt → IsNumeral 10 word.toInt32.toInt.natAbs l →
      NumberText word alternate 'd' l
  | hex {l : List UInt8} : IsNumeral 16 word.toNat l → NumberText word false 'x' l
  | padded {l : List UInt8} :
    l.length = 8 → Denotes 16 word.toNat l → NumberText word true 'x' l

/-- Zeros in front change no value. -/
theorem denotes_replicate_append {radix value : ℕ} (n : ℕ) (hradix : 0 < radix)
    (h : Denotes radix value l) :
    Denotes radix value (List.replicate n '0'.toUInt8 ++ l) := by
  induction n with
  | zero => exact h
  | succ n ih =>
    refine ⟨fun c hc => ?_, ?_⟩
    · rw [List.replicate_succ, List.cons_append] at hc
      rcases List.mem_cons.mp hc with rfl | hc
      · exact ⟨0, hradix, by decide⟩
      · exact ih.digits c hc
    · rw [List.replicate_succ, List.cons_append, ← ih.valueOf_eq, valueOf, valueOf,
        List.foldl_cons, show radix * 0 + digitValue '0'.toUInt8 = 0 by rw [Nat.mul_zero]; decide]

theorem convert_number (call : PrintfCall) (alternate : Bool) (word : UInt32) {c : Char}
    (hc : c ∈ ['u', 'd', 'x']) : ∃ out, call.convert alternate c.toUInt8 word = some out ∧
      NumberText word alternate c out := by
  simp only [List.mem_cons, List.not_mem_nil, or_false] at hc
  rcases hc with rfl | rfl | rfl
  · exact ⟨_, printUnsigned_eq .., .unsigned (numeral_isNumeral (by omega) (by omega) _)⟩
  · refine ⟨_, printSigned_eq .., ?_⟩
    split_ifs with hneg
    · exact .negative hneg (numeral_isNumeral (by omega) (by omega) _)
    · exact .nonnegative (not_lt.mp hneg) (numeral_isNumeral (by omega) (by omega) _)
  · cases alternate with
    | false => exact ⟨_, printHex_eq .., .hex (numeral_isNumeral (by omega) (by omega) _)⟩
    | true =>
      refine ⟨_, printHex_alternate_eq .., .padded ?_ ?_⟩
      · have hlen : (numeral 16 word.toNat).length ≤ 8 :=
          numeral_length_le (by omega) (by omega) word.toNat_lt
        rw [List.length_append, List.length_replicate]
        omega
      · have hnumeral : IsNumeral 16 word.toNat (numeral 16 word.toNat) :=
          numeral_isNumeral (by omega) (by omega) _
        exact denotes_replicate_append _ (by omega) hnumeral.toDenotes

/-- The format of one number conversion. -/
def numberFormat (alternate : Bool) (c : Char) : List Char :=
  if alternate then ['%', '#', c] else ['%', c]

theorem numberFormat_facts (alternate : Bool) {c : Char} (hc : c ∈ ['u', 'd', 'x']) :
    0 ∉ (numberFormat alternate c).map Char.toUInt8 ∧
    directives .text ((numberFormat alternate c).map Char.toUInt8)
      = [.convert alternate c.toUInt8] ∧
    takesArgument c.toUInt8 = true ∧ c.toUInt8 ≠ 's'.toUInt8 ∧
    ((numberFormat alternate c).map Char.toUInt8).length < addressSpace := by
  simp only [List.mem_cons, List.not_mem_nil, or_false] at hc
  rcases hc with rfl | rfl | rfl <;> cases alternate <;> decide

theorem printf_number (call : PrintfCall) (alternate : Bool) {c : Char}
    (hc : c ∈ ['u', 'd', 'x']) (h : HoldsString call.format (numberFormat alternate c)) :
    (printf call).result ≠ none ∧
      NumberText (call.args 0) alternate c (putsOf (printf call).events) := by
  obtain ⟨out, hout, htext⟩ := convert_number call alternate (call.args 0) hc
  obtain ⟨hchars, hds, harg, hs, hlen⟩ := numberFormat_facts alternate hc
  have hstrings : call.StringsFrom 0 (arguments [.convert alternate c.toUInt8]) := by
    intro k hk
    rw [arguments_convert, if_pos harg] at hk
    have hmem := List.mem_of_getElem? hk
    exact absurd (List.mem_singleton.mp hmem).symm hs
  have hfinished : Directive.unfinished ∉ [.convert alternate c.toUInt8] := by simp
  have hprint := printf_output (.of_holdsString h hchars) hlen (hds ▸ hstrings)
    (hds ▸ hfinished)
  rw [hds, PrintfCall.output, if_pos harg, hout] at hprint
  refine ⟨?_, ?_⟩
  · rw [hprint.1]
    exact Option.some_ne_none _
  · rw [hprint.2]
    simpa [PrintfCall.output] using htext

/-- `itoa` writes the canonical numeral for every radix, and `printf` prints it, inside the
local buffers. -/
theorem number_formats_exact :
    (∀ (value : UInt32) (radix : ℕ), 2 ≤ radix → radix ≤ 36 →
      ∀ (size s : ℕ) (buf : Bytes), s + 32 < size →
        ∃ buf' l, itoa size value buf s radix = some buf' ∧ StringFrom buf' s l ∧
          l.length ≤ 32 ∧ IsNumeral radix value.toNat l) ∧
    ∀ (call : PrintfCall) (alternate : Bool), ∀ c ∈ ['u', 'd', 'x'],
      HoldsString call.format (numberFormat alternate c) →
        (printf call).result ≠ none ∧
          NumberText (call.args 0) alternate c (putsOf (printf call).events) := by
  refine ⟨fun value radix hradix hmax size s buf hsize => ?_, fun call alternate c hc h =>
    printf_number call alternate hc h⟩
  have h0 := numeral_ne_zero hradix hmax value.toNat
  refine ⟨_, _, itoa_eq buf hradix hmax hsize, ⟨fun i c hc => ?_, ?_⟩,
    numeral_length_le hradix (by omega) (toNat_lt_radix_pow value hradix),
    numeral_isNumeral hradix hmax value.toNat⟩
  · refine ⟨splice_get buf s ?_, h0 c (List.mem_of_getElem? hc)⟩
    rw [List.getElem?_append_left (List.getElem?_eq_some_iff.mp hc).1, hc]
  · exact splice_get buf s (by simp)

/-- 255 in hexadecimal, in the second half of a buffer, and 42 in eight digits. -/
theorem number_formats_sample :
    (∃ buf' l, itoa 64 255 (fun _ => 7) 8 16 = some buf' ∧ StringFrom buf' 8 l ∧
      l.length ≤ 32 ∧ IsNumeral 16 255 l) ∧
    (printf (callOf ['%', '#', 'x'])).result ≠ none ∧
      NumberText 42 true 'x' (putsOf (printf (callOf ['%', '#', 'x'])).events) :=
  ⟨number_formats_exact.1 255 16 (by decide) (by decide) 64 8 (fun _ => 7) (by decide),
    number_formats_exact.2 (callOf ['%', '#', 'x']) true 'x' (by decide) (literal_holds _ _)⟩

end Kernel391
