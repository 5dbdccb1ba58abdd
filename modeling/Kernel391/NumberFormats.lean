import Kernel391.Printf
import Mathlib.Data.Nat.Digits.Lemmas

/-!
# Numbers are printed exactly

`itoa` writes the digits from the lowest place on and reverses them in place. Both loops
are followed as lists put into the buffer (`splice`): `itoaFrom_eq` gives `Nat.digits`, and
`strrev_eq` its reverse. What the conversions print is then a list of characters, and
`IsNumeral` says of such a list that it is the canonical numeral of a value.
-/

namespace Kernel391

variable {size radix s n : ℕ} {buf : Bytes} {l : List UInt8} {c : UInt8}

/-! ## Lists put into a buffer -/

/-- `buf` with the bytes of `l` from `k` on. -/
def splice (buf : Bytes) (k : ℕ) (l : List UInt8) : Bytes := fun i =>
  if k ≤ i then (l[i - k]?).getD (buf i) else buf i

theorem splice_nil (buf : Bytes) (k : ℕ) : splice buf k [] = buf := by
  funext i
  simp [splice]

theorem splice_get (buf : Bytes) (k : ℕ) {i : ℕ} (h : l[i]? = some c) :
    splice buf k l (k + i) = c := by
  rw [splice, if_pos (Nat.le_add_right k i), Nat.add_sub_cancel_left, h]
  rfl

theorem splice_before {k i : ℕ} (h : i < k) : splice buf k l i = buf i := by
  rw [splice, if_neg (by omega)]

theorem splice_after {k i : ℕ} (h : k + l.length ≤ i) : splice buf k l i = buf i := by
  rw [splice]
  split_ifs with hk
  · rw [List.getElem?_eq_none (by omega)]
    rfl
  · rfl

/-- A byte stored in front. -/
theorem splice_cons (buf : Bytes) (k : ℕ) (c : UInt8) (l : List UInt8) :
    splice (Function.update buf k c) (k + 1) l = splice buf k (c :: l) := by
  funext i
  by_cases hk : k + 1 ≤ i
  · have hne : i ≠ k := by omega
    have hpos : i - k = (i - (k + 1)) + 1 := by omega
    rw [splice, splice, if_pos hk, if_pos (by omega), hpos, List.getElem?_cons_succ,
      Function.update_of_ne hne]
  · rw [splice, if_neg hk]
    by_cases hik : i = k
    · subst hik
      rw [Function.update_self, splice, if_pos le_rfl, Nat.sub_self]
      rfl
    · rw [Function.update_of_ne hik, splice_before (by omega)]

/-- A byte stored behind. -/
theorem update_splice (buf : Bytes) (k : ℕ) (c : UInt8) (l : List UInt8) :
    Function.update (splice buf k l) (k + l.length) c = splice buf k (l ++ [c]) := by
  funext i
  by_cases hi : i = k + l.length
  · subst hi
    have hlast : (l ++ [c])[l.length]? = some c := by simp
    rw [Function.update_self, splice_get buf k hlast]
  · rw [Function.update_of_ne hi]
    by_cases hlt : i < k + l.length
    · rw [splice, splice]
      split_ifs with hk
      · rw [List.getElem?_append_left (by omega)]
      · rfl
    · rw [splice_after (by omega), splice_after (by simp; omega)]

/-! ## Strings in a buffer -/

/-- Without a NUL among them, the bytes of `l` are the string. -/
theorem strlen_splice (buf : Bytes) (k : ℕ) (h0 : ∀ c ∈ l, c ≠ 0)
    (hlen : l.length < addressSpace) :
    strlen (fun i => splice buf k (l ++ [0]) (k + i)) = l.length := by
  refine strlen_eq hlen (fun i hi => ?_) ?_
  · have hget : (l ++ [0])[i]? = some l[i] := by
      rw [List.getElem?_append_left hi, List.getElem?_eq_getElem hi]
    rw [splice_get buf k hget]
    exact h0 _ (List.getElem_mem hi)
  · exact splice_get buf k (by simp)

theorem strlenIn_splice (buf : Bytes) (k : ℕ) (h0 : ∀ c ∈ l, c ≠ 0)
    (hlen : l.length < addressSpace) (hsize : k + l.length < size) :
    strlenIn size (splice buf k (l ++ [0])) k = some l.length := by
  rw [strlenIn, strlen_splice buf k h0 hlen, if_pos hsize]

theorem putsIn_splice (buf : Bytes) (k : ℕ) (h0 : ∀ c ∈ l, c ≠ 0)
    (hlen : l.length < addressSpace) (hsize : k + l.length < size) :
    putsIn size (splice buf k (l ++ [0])) k = some l := by
  have hstrlen := strlen_splice buf k h0 hlen
  have hend : splice buf k (l ++ [0]) (k + l.length) = 0 := splice_get buf k (by simp)
  rw [putsIn, strlenIn_splice buf k h0 hlen hsize, Option.bind_eq_bind, Option.bind_some,
    putsBytes, hstrlen, if_pos hend]
  congr 1
  refine List.ext_getElem (by simp) fun i hi hi' => ?_
  rw [List.getElem_map, List.getElem_range]
  refine splice_get buf k ?_
  rw [List.getElem?_append_left hi', List.getElem?_eq_getElem hi']

/-! ## Reversing in place -/

/-- The `n` bytes from `s` on in the other order, but for the first and last `k`. -/
def mirror (s n k : ℕ) (buf : Bytes) : Bytes := fun i =>
  if s + k ≤ i ∧ i + k < s + n then buf (2 * s + n - 1 - i) else buf i

/-- With at most one byte left there is nothing to swap. -/
theorem mirror_eq_self {k : ℕ} (h : n ≤ 2 * k + 1) : mirror s n k buf = buf := by
  funext i
  rw [mirror]
  split_ifs with hi
  · congr 1
    omega
  · rfl

theorem mirror_swap {k : ℕ} (h : 2 * k + 1 < n) :
    mirror s n (k + 1) (Function.update (Function.update buf (s + (n - 1 - k)) (buf (s + k)))
      (s + k) (buf (s + (n - 1 - k)))) = mirror s n k buf := by
  funext i
  rw [mirror, mirror]
  by_cases hin : s + (k + 1) ≤ i ∧ i + (k + 1) < s + n
  · rw [if_pos hin, if_pos (by omega), Function.update_of_ne (by omega),
      Function.update_of_ne (by omega)]
  · rw [if_neg hin]
    by_cases hfirst : i = s + k
    · rw [hfirst, Function.update_self, if_pos (by omega)]
      congr 1
      omega
    · rw [Function.update_of_ne hfirst]
      by_cases hlast : i = s + (n - 1 - k)
      · rw [hlast, Function.update_self, if_pos (by omega)]
        congr 1
        omega
      · rw [Function.update_of_ne hlast, if_neg (by omega)]

theorem strrevFrom_eq {k rounds : ℕ} (hsize : s + n ≤ size) (hrounds : n ≤ 2 * (k + rounds) + 1) :
    strrevFrom size s rounds buf k (n - 1 - k) = some (mirror s n k buf) := by
  induction rounds generalizing k buf with
  | zero =>
    rw [strrevFrom, if_neg (by omega), mirror_eq_self (by omega)]
  | succ rounds ih =>
    rw [strrevFrom]
    by_cases hlt : (k : ℤ) < n - 1 - k
    · have hlast : ((n : ℤ) - 1 - k).toNat = n - 1 - k := by omega
      have hfirst : (k : ℤ).toNat = k := Int.toNat_natCast k
      rw [if_pos hlt, hlast, hfirst, loadIn, if_pos (by omega), loadIn, if_pos (by omega)]
      simp only [Option.bind_eq_bind, Option.bind_some, storeIn]
      rw [if_pos (by omega), Option.bind_some, if_pos (by omega), Option.bind_some]
      rw [← mirror_swap (by omega), ← ih (by omega)]
      congr 1
      push_cast
      omega
    · rw [if_neg hlt, mirror_eq_self (by omega)]

theorem mirror_splice (buf : Bytes) (s : ℕ) (l : List UInt8) (c : UInt8) :
    mirror s l.length 0 (splice buf s (l ++ [c])) = splice buf s (l.reverse ++ [c]) := by
  funext i
  rw [mirror]
  by_cases hin : s + 0 ≤ i ∧ i + 0 < s + l.length
  · have hj : i - s < l.length := by omega
    have hrev : (l.reverse ++ [c])[i - s]? = some l[l.length - 1 - (i - s)] := by
      rw [List.getElem?_append_left (by rw [List.length_reverse]; exact hj),
        List.getElem?_reverse hj, List.getElem?_eq_getElem]
    have hget : (l ++ [c])[l.length - 1 - (i - s)]? = some l[l.length - 1 - (i - s)] := by
      rw [List.getElem?_append_left (by omega), List.getElem?_eq_getElem]
    have hfrom : 2 * s + l.length - 1 - i = s + (l.length - 1 - (i - s)) := by omega
    have hto : i = s + (i - s) := by omega
    rw [if_pos hin, hfrom, splice_get buf s hget]
    conv_rhs => rw [hto]
    exact (splice_get buf s hrev).symm
  · rw [if_neg hin]
    by_cases hs : s ≤ i
    · have hright : (l ++ [c])[i - s]? = (l.reverse ++ [c])[i - s]? := by
        rw [List.getElem?_append_right (by omega),
          List.getElem?_append_right (by rw [List.length_reverse]; omega), List.length_reverse]
      rw [splice, splice, hright]
    · rw [splice_before (by omega), splice_before (by omega)]

/-- `strrev` reverses the string. -/
theorem strrev_eq (buf : Bytes) (s : ℕ) (h0 : ∀ c ∈ l, c ≠ 0) (hlen : l.length < addressSpace)
    (hsize : s + l.length < size) :
    strrev size (splice buf s (l ++ [0])) s = some (splice buf s (l.reverse ++ [0])) := by
  have hfrom : strrevFrom size s l.length (splice buf s (l ++ [0])) ((0 : ℕ) : ℤ)
      (l.length - 1 - (0 : ℕ)) = some (mirror s l.length 0 (splice buf s (l ++ [0]))) :=
    strrevFrom_eq hsize.le (by omega)
  rw [mirror_splice, Int.natCast_zero, sub_zero] at hfrom
  rw [strrev, strlenIn_splice buf s h0 hlen hsize, Option.bind_eq_bind, Option.bind_some]
  exact hfrom

/-! ## `itoa` -/

/-- The character of a digit. -/
def digitChar (d : ℕ) : UInt8 := (lookup[d]?).getD 0

theorem lookup_eq : ∀ d < 36, lookup[d]? = some (digitChar d) := by decide +kernel

theorem digitChar_ne_zero : ∀ d < 36, digitChar d ≠ 0 := by decide +kernel

/-- The numeral of a value, highest place first. -/
def numeral (radix value : ℕ) : List UInt8 :=
  if value = 0 then ['0'.toUInt8] else ((Nat.digits radix value).map digitChar).reverse

theorem itoaFrom_eq {rounds newval newbuf : ℕ} (hradix : 2 ≤ radix) (hmax : radix ≤ 36)
    (hval : newval < radix ^ rounds) (hsize : newbuf + rounds ≤ size) :
    itoaFrom size radix rounds newval buf newbuf
      = some (splice buf newbuf ((Nat.digits radix newval).map digitChar),
          newbuf + (Nat.digits radix newval).length) := by
  induction rounds generalizing newval buf newbuf with
  | zero =>
    have hzero : newval = 0 := by rw [pow_zero] at hval; omega
    rw [itoaFrom, if_neg (by omega), hzero, Nat.digits_zero, List.map_nil, splice_nil]
    rfl
  | succ rounds ih =>
    rw [itoaFrom]
    by_cases hpos : 0 < newval
    · have hdigit : newval % radix < 36 :=
        lt_of_lt_of_le (Nat.mod_lt _ (by omega)) hmax
      have hdiv : newval / radix < radix ^ rounds := by
        rw [Nat.div_lt_iff_lt_mul (by omega), ← pow_succ]
        exact hval
      rw [if_pos hpos, if_neg (by omega), lookup_eq _ hdigit]
      simp only [Option.bind_eq_bind, Option.bind_some, storeIn]
      rw [if_pos (by omega), Option.bind_some, ih hdiv (by omega), splice_cons,
        Nat.digits_def' (by omega) hpos]
      simp only [List.map_cons, List.length_cons]
      congr 2
      omega
    · have hzero : newval = 0 := by omega
      rw [if_neg hpos, hzero, Nat.digits_zero, List.map_nil, splice_nil]
      rfl

theorem numeral_ne_zero (hradix : 2 ≤ radix) (hmax : radix ≤ 36) (value : ℕ) :
    ∀ c ∈ numeral radix value, c ≠ 0 := by
  intro c hc
  rw [numeral] at hc
  split_ifs at hc with h0
  · rw [List.mem_singleton] at hc
    rw [hc]
    decide
  · rw [List.mem_reverse, List.mem_map] at hc
    obtain ⟨d, hd, rfl⟩ := hc
    have hlt := Nat.digits_lt_base (by omega) hd
    exact digitChar_ne_zero d (by omega)

theorem numeral_length_le {k value : ℕ} (hradix : 2 ≤ radix) (hk : 0 < k)
    (hval : value < radix ^ k) : (numeral radix value).length ≤ k := by
  rw [numeral]
  split_ifs
  · exact hk
  · rw [List.length_reverse, List.length_map]
    exact (Nat.digits_length_le_iff (by omega) value).mpr hval

theorem toNat_lt_radix_pow (value : UInt32) (hradix : 2 ≤ radix) :
    value.toNat < radix ^ 32 :=
  lt_of_lt_of_le value.toNat_lt (Nat.pow_le_pow_left hradix 32)

/-- `itoa` puts the numeral and a NUL into the buffer, and changes nothing else. -/
theorem itoa_eq {value : UInt32} (buf : Bytes) (hradix : 2 ≤ radix) (hmax : radix ≤ 36)
    (hsize : s + 32 < size) :
    itoa size value buf s radix = some (splice buf s (numeral radix value.toNat ++ [0])) := by
  have hval := toNat_lt_radix_pow value hradix
  rw [itoa]
  by_cases h0 : value = 0
  · have hone : ['0'.toUInt8, 0] = numeral radix value.toNat ++ [0] := by
      rw [h0]
      rfl
    rw [if_pos h0, ← hone, ← splice_cons, ← splice_cons, splice_nil, storeIn, if_pos (by omega),
      Option.bind_eq_bind, Option.bind_some, storeIn, if_pos (by omega)]
  · have hne : value.toNat ≠ 0 := fun h => h0 (UInt32.toNat_inj.mp h)
    have hnumeral : numeral radix value.toNat
        = ((Nat.digits radix value.toNat).map digitChar).reverse := if_neg hne
    have hlen : (Nat.digits radix value.toNat).length ≤ 32 :=
      (Nat.digits_length_le_iff (by omega) _).mpr hval
    have hchars : ∀ c ∈ (Nat.digits radix value.toNat).map digitChar, c ≠ 0 := by
      intro c hc
      exact numeral_ne_zero hradix hmax value.toNat c (hnumeral ▸ List.mem_reverse.mpr hc)
    have hend := update_splice buf s 0 ((Nat.digits radix value.toNat).map digitChar)
    rw [List.length_map] at hend
    rw [if_neg h0, itoaFrom_eq hradix hmax hval (by omega), Option.bind_eq_bind,
      Option.bind_some]
    simp only [storeIn]
    rw [if_pos (by omega), Option.bind_eq_bind, Option.bind_some, hend, hnumeral]
    refine strrev_eq buf s hchars ?_ ?_
    · rw [List.length_map, addressSpace]
      omega
    · rw [List.length_map]
      omega

/-! ## Numerals -/

/-- The digit a character stands for. -/
def digitValue (c : UInt8) : ℕ := lookup.idxOf c

/-- The number a list of characters denotes. -/
def valueOf (radix : ℕ) (l : List UInt8) : ℕ :=
  l.foldl (fun v c => radix * v + digitValue c) 0

/-- Digits below the radix, with the value given. -/
structure Denotes (radix value : ℕ) (l : List UInt8) : Prop where
  digits : ∀ c ∈ l, ∃ d < radix, lookup[d]? = some c
  valueOf_eq : valueOf radix l = value

/-- The canonical numeral: without a leading zero unless the value is 0. -/
structure IsNumeral (radix value : ℕ) (l : List UInt8) : Prop extends
    Denotes radix value l where
  nonempty : l ≠ []
  canonical : l.head? = some '0'.toUInt8 → value = 0 ∧ l.length = 1

theorem digitValue_digitChar : ∀ d < 36, digitValue (digitChar d) = d := by decide +kernel

theorem digitChar_eq_zero : ∀ d < 36, digitChar d = '0'.toUInt8 → d = 0 := by
  decide +kernel

theorem valueOf_append (radix : ℕ) (l : List UInt8) (c : UInt8) :
    valueOf radix (l ++ [c]) = radix * valueOf radix l + digitValue c := by
  rw [valueOf, List.foldl_append]
  rfl

theorem valueOf_reverse (hmax : radix ≤ 36) {ds : List ℕ} (hds : ∀ d ∈ ds, d < radix) :
    valueOf radix (ds.map digitChar).reverse = Nat.ofDigits radix ds := by
  induction ds with
  | nil => rfl
  | cons d ds ih =>
    have hd : d < radix := hds d (List.mem_cons_self ..)
    rw [List.map_cons, List.reverse_cons, valueOf_append,
      ih fun d hd => hds d (List.mem_cons_of_mem _ hd), digitValue_digitChar d (by omega),
      Nat.ofDigits_cons, Nat.add_comm]

theorem numeral_isNumeral (hradix : 2 ≤ radix) (hmax : radix ≤ 36) (value : ℕ) :
    IsNumeral radix value (numeral radix value) := by
  rw [numeral]
  split_ifs with h0
  · refine ⟨⟨fun c hc => ?_, ?_⟩, List.cons_ne_nil _ _, fun _ => ⟨h0, rfl⟩⟩
    · rw [List.mem_singleton] at hc
      exact ⟨0, by omega, hc ▸ rfl⟩
    · rw [h0]
      show radix * 0 + digitValue '0'.toUInt8 = 0
      rw [Nat.mul_zero]
      decide
  · have hlt : ∀ d ∈ Nat.digits radix value, d < radix := fun d hd =>
      Nat.digits_lt_base (by omega) hd
    have hne : Nat.digits radix value ≠ [] := Nat.digits_ne_nil_iff_ne_zero.mpr h0
    refine ⟨⟨fun c hc => ?_, ?_⟩, by simpa using hne, fun hhead => ?_⟩
    · rw [List.mem_reverse, List.mem_map] at hc
      obtain ⟨d, hd, rfl⟩ := hc
      have hd' := hlt d hd
      exact ⟨d, hd', lookup_eq d (by omega)⟩
    · rw [valueOf_reverse hmax hlt, Nat.ofDigits_digits]
    · -- the first character is that of the highest digit
      have hlast := Nat.getLast_digit_ne_zero radix h0
      have hmem := hlt _ (List.getLast_mem hne)
      rw [List.head?_reverse, List.getLast?_map, List.getLast?_eq_some_getLast hne,
        Option.map_some, Option.some.injEq] at hhead
      exact absurd (digitChar_eq_zero _ (by omega) hhead) hlast

/-! ## What the conversions print -/

/-- The numeral, put into a local buffer and printed. -/
theorem itoa_puts {value : UInt32} (buf : Bytes) (hradix : 2 ≤ radix) (hmax : radix ≤ 36)
    (hsize : 32 < size) :
    (itoa size value buf 0 radix).bind (fun buf => putsIn size buf 0)
      = some (numeral radix value.toNat) := by
  have hlen := numeral_length_le hradix (by omega) (toNat_lt_radix_pow value hradix)
  rw [itoa_eq buf hradix hmax (by omega), Option.bind_some]
  refine putsIn_splice buf 0 (numeral_ne_zero hradix hmax _) ?_ ?_
  · rw [addressSpace]
    omega
  · omega

theorem printUnsigned_eq (conv_buf : Bytes) (word : UInt32) :
    printUnsigned conv_buf word = some (numeral 10 word.toNat) :=
  itoa_puts conv_buf (by omega) (by omega) (by omega)

theorem printHex_eq (conv_buf : Bytes) (word : UInt32) :
    printHex false conv_buf word = some (numeral 16 word.toNat) :=
  itoa_puts conv_buf (by omega) (by omega) (by omega)

theorem splice_splice (buf : Bytes) (k : ℕ) (l₁ l₂ : List UInt8) :
    splice (splice buf (k + l₁.length) l₂) k l₁ = splice buf k (l₁ ++ l₂) := by
  induction l₁ generalizing buf k with
  | nil => rw [splice_nil]; rfl
  | cons c l₁ ih =>
    have hcomm : Function.update (splice buf (k + (c :: l₁).length) l₂) k c
        = splice (Function.update buf k c) (k + 1 + l₁.length) l₂ := by
      funext i
      rw [List.length_cons, ← Nat.add_assoc, Nat.add_right_comm]
      by_cases hi : i = k
      · rw [hi, Function.update_self, splice_before (by omega), Function.update_self]
      · rw [Function.update_of_ne hi, splice, splice, Function.update_of_ne hi]
    rw [← splice_cons, hcomm, ih, List.cons_append, splice_cons]

theorem zeroFill_eq {rounds i : ℕ} (hsize : 8 ≤ size) (hrounds : 8 ≤ i + rounds) :
    zeroFill size rounds buf i = some (splice buf i (List.replicate (8 - i) '0'.toUInt8)) := by
  induction rounds generalizing buf i with
  | zero =>
    rw [zeroFill, if_neg (by omega), Nat.sub_eq_zero_of_le (by omega), List.replicate_zero,
      splice_nil]
  | succ rounds ih =>
    rw [zeroFill]
    by_cases hi : i < 8
    · rw [if_pos hi, storeIn, if_pos (by omega), Option.bind_eq_bind, Option.bind_some,
        ih (by omega), splice_cons, ← List.replicate_succ, show 8 - (i + 1) + 1 = 8 - i by omega]
    · rw [if_neg hi, Nat.sub_eq_zero_of_le (by omega), List.replicate_zero, splice_nil]

/-- The number with zeros in front, from the two regions of the buffer. -/
theorem printHex_alternate_eq (conv_buf : Bytes) (word : UInt32) :
    printHex true conv_buf word = some (List.replicate (8 - (numeral 16 word.toNat).length)
      '0'.toUInt8 ++ numeral 16 word.toNat) := by
  have hlen : (numeral 16 word.toNat).length ≤ 8 :=
    numeral_length_le (by omega) (by omega) word.toNat_lt
  have h0 := numeral_ne_zero (show 2 ≤ 16 by omega) (by omega) word.toNat
  set l := numeral 16 word.toNat with hl
  have hzeros : ∀ c ∈ List.replicate (8 - l.length) '0'.toUInt8 ++ l, c ≠ 0 := by
    intro c hc
    rcases List.mem_append.mp hc with hc | hc
    · rw [List.eq_of_mem_replicate hc]
      decide
    · exact h0 c hc
  have htotal : (List.replicate (8 - l.length) '0'.toUInt8 ++ l).length = 8 := by
    rw [List.length_append, List.length_replicate]
    omega
  have hbuf : splice (splice conv_buf 8 (l ++ [0])) l.length
      (List.replicate (8 - l.length) '0'.toUInt8)
        = splice conv_buf l.length (List.replicate (8 - l.length) '0'.toUInt8 ++ l ++ [0]) := by
    have hjoin := splice_splice conv_buf l.length (List.replicate (8 - l.length) '0'.toUInt8)
      (l ++ [0])
    rw [List.length_replicate, show l.length + (8 - l.length) = 8 by omega] at hjoin
    rw [hjoin, List.append_assoc]
  rw [printHex, if_neg (by decide), itoa_eq conv_buf (by omega) (by omega) (by omega), ← hl,
    Option.bind_eq_bind, Option.bind_some,
    strlenIn_splice conv_buf 8 h0 (by rw [addressSpace]; omega) (by omega),
    Option.bind_eq_bind, Option.bind_some, zeroFill_eq (by omega) (by omega), Option.bind_some,
    hbuf]
  exact putsIn_splice conv_buf l.length hzeros (by rw [htotal, addressSpace]; omega)
    (by rw [htotal]; omega)

theorem toInt_toInt32 (word : UInt32) :
    word.toInt32.toInt = if word.toNat < 2 ^ 31 then (word.toNat : ℤ) else word.toNat - 2 ^ 32 := by
  have hcond : word.toInt32.toInt = word.toBitVec.toInt := rfl
  have hnat : word.toBitVec.toNat = word.toNat := rfl
  rw [hcond, BitVec.toInt_eq_toNat_cond, hnat]
  split_ifs <;> omega

/-- The negated value, passed on as an unsigned number: also for the least one. -/
theorem toNat_neg_toInt32 {word : UInt32} (h : word.toInt32.toInt < 0) :
    (-word.toInt32).toUInt32.toNat = word.toInt32.toInt.natAbs := by
  have hneg : (-word.toInt32).toUInt32.toNat = (2 ^ 32 - word.toNat) % 2 ^ 32 := by
    show (-word.toBitVec).toNat = _
    rw [BitVec.toNat_neg]
    rfl
  have hlt := word.toNat_lt
  rw [toInt_toInt32] at h ⊢
  rw [hneg]
  split_ifs at h ⊢ <;> omega

/-- The number with its sign. -/
theorem printSigned_eq (conv_buf : Bytes) (word : UInt32) :
    printSigned conv_buf word = some ((if word.toInt32.toInt < 0 then ['-'.toUInt8] else []) ++
      numeral 10 word.toInt32.toInt.natAbs) := by
  have hiff : word.toInt32 < 0 ↔ word.toInt32.toInt < 0 := Int32.lt_iff_toInt_lt
  rw [printSigned]
  by_cases hneg : word.toInt32.toInt < 0
  · have hnat := toNat_neg_toInt32 hneg
    have hlen := numeral_length_le (show 2 ≤ 10 by omega) (by omega)
      (toNat_lt_radix_pow (-word.toInt32).toUInt32 (show 2 ≤ 10 by omega))
    have h0 := numeral_ne_zero (show 2 ≤ 10 by omega) (by omega)
      (-word.toInt32).toUInt32.toNat
    rw [if_pos (hiff.mpr hneg), if_pos hneg, storeIn, if_pos (by omega), Option.bind_eq_bind,
      Option.bind_some, itoa_eq _ (by omega) (by omega) (by omega), Option.bind_some,
      splice_cons, hnat]
    rw [hnat] at hlen h0
    refine putsIn_splice conv_buf 0 (l := '-'.toUInt8 :: numeral 10 _) ?_ ?_ ?_
    · intro c hc
      rcases List.mem_cons.mp hc with rfl | hc
      · decide
      · exact h0 c hc
    · rw [List.length_cons, addressSpace]
      omega
    · rw [List.length_cons]
      omega
  · have hnat : word.toInt32.toInt.natAbs = word.toNat := by
      have hlt := word.toNat_lt
      rw [toInt_toInt32] at hneg ⊢
      split_ifs at hneg ⊢ <;> omega
    rw [if_neg (fun h => hneg (hiff.mp h)), if_neg hneg, hnat, List.nil_append]
    exact itoa_puts conv_buf (by omega) (by omega) (by omega)

end Kernel391
