/-
  Fixed-point numbers as text (src/core/model/int64x64.cc).

  A string is the list of its characters, all of them ASCII; a position in it is an index,
  or `none` for `npos`.

  The writer leaves less than one unit of the last place, and rounds it; the reader adds
  up rounding errors of less than one unit of the fraction.  Together they stay below one
  unit of the fraction, so that the number read is the number written.
-/
import Mathlib.Data.List.TakeWhile
import Ns3.Core.Int64x64Exact

namespace Ns3.Int64x64

/-! ## Output -/

/-- The state of the stream that `operator<<` reads. -/
structure StreamFormat where
  /-- a flag of `std::ios_base::floatfield` is set -/
  floatfield : Bool := false
  precision : Nat := 6
  deriving DecidableEq, Repr

def decimal (n : Nat) : List Char := Nat.toDigits 10 n

def digitLoop (fmt : StreamFormat) : (fuel : Nat) → (low : Int64x64) → (oss : List Char) →
    (places : Nat) → Except Fault (Int64x64 × Int × List Char)
  | 0, _, _, _ => .error .noProgress
  | fuel + 1, low, oss, places => do
      let low ← low.mul (ofInt 10)
      let digit := low.getHigh
      nsAssert (decide (0 ≤ digit) && decide (digit ≤ 9))
      let low := low.sub (ofInt digit)
      let oss := oss ++ decimal digit.toNat
      let places := places + 1
      let more := if fmt.floatfield then decide (places < fmt.precision)
        else low.getLow ≠ 0 && decide (places < 20)
      if more then digitLoop fmt fuel low oss places else pure (low, digit, oss)

/-- "Walk backwards with the carry": the digits, last one first, and whether a carry is left. -/
def carryLoop : List Char → List Char × Bool
  | [] => ([], true)
  | c :: rest =>
    if c = '.' then
      let (rest', carry) := carryLoop rest
      (c :: rest', carry)
    else
      let c' := Char.ofNat (c.toNat + 1)
      if c' ≤ '9' then (c' :: rest, false)
      else
        let (rest', carry) := carryLoop rest
        ('0' :: rest', carry)

def roundDigits (digits : List Char) : List Char :=
  let (reversed, carry) := carryLoop digits.reverse
  if carry then '1' :: reversed.reverse else reversed.reverse

/-- `operator<<`.  A loop of `precision` or of 20 places ends. -/
def write (fmt : StreamFormat) (value : Int64x64) : Except Fault (List Char) := do
  let negative := decide (value.v < 0)
  let (hi, low) :=
    if value ≠ ofWords (-2 ^ 63) 0 then
      let absVal := if negative then value.neg else value
      ((absVal.getHigh % 2 ^ 64).toNat, ofWords 0 absVal.getLow)
    else (2 ^ 63, zero)
  let sign := if negative then ['-'] else ['+']
  let (low, digit, digits) ←
    digitLoop fmt (max 20 fmt.precision) low (decimal hi ++ ['.']) 0
  -- "Check if we need to round the last printed digit, based on the first unprinted digit"
  let low ← low.mul (ofInt 10)
  let nextDigit := low.getHigh
  if 5 < nextDigit ∨ (nextDigit = 5 ∧ digit % 2 = 1) then pure (sign ++ roundDigits digits)
  else pure (sign ++ digits)

/-! ## Input -/

def isSpace (c : Char) : Bool := c = ' ' || (9 ≤ c.toNat && c.toNat ≤ 13)

/-- `is >> str`: the next word of the stream. -/
def readWord (is : List Char) : List Char := (is.dropWhile isSpace).takeWhile fun c => !isSpace c

def find (str : List Char) (c : Char) (pos : Option Nat) : Option Nat :=
  pos.bind fun pos => ((str.drop pos).findIdx? fun x => x == c).map fun i => pos + i

def substr (str : List Char) (pos len : Nat) : List Char := (str.drop pos).take len

/-- `c - '0'`. -/
def digitOf (c : Char) : Int := c.toNat - '0'.toNat

/-- `ReadHiDigits`; the buffer ends at a null character. -/
def readHiDigits (str : List Char) : Nat :=
  (str.takeWhile fun c => c.toNat ≠ 0).foldl
    (fun retval c => ((retval * 10 + digitOf c) % 2 ^ 64).toNat) 0

def readLoLoop : List Char → Int64x64 → Except Fault Int64x64
  | [], low => .ok low
  | c :: rest, low => do
      let digit := digitOf c
      nsAssert (decide (0 ≤ digit) && decide (digit ≤ 9))
      let low ← ((low.add (ofInt digit)).add (ofWords 0 5)).div (ofInt 10)
      readLoLoop rest low

def readLoDigits (str : List Char) : Except Fault Nat := do
  let low ← readLoLoop str.reverse zero
  pure low.getLow

/-- `operator>>`. -/
def read (is : List Char) : Except Fault Int64x64 := do
  let str := readWord is
  -- "skip heading spaces"
  let cur := str.findIdx? fun c => c ≠ ' '
  -- "first, remove the sign"
  let (negative, cur) :=
    match find str '-' cur with
    | some next => (true, some (next + 1))
    | none =>
      match find str '+' cur with
      | some next => (false, some (next + 1))
      | none => (false, cur)
  let (hi, lo) ←
    match cur, find str '.' cur with
    | some cur, some next => do
        let lo ← readLoDigits (substr str (next + 1) (str.length - (next + 1)))
        pure (toInt64 (readHiDigits (substr str cur (next - cur))), lo)
    | some cur, none => pure (toInt64 (readHiDigits (substr str cur (str.length - cur))), 0)
    | none, _ => pure (0, 0)
  let value := ofWords hi lo
  pure (if negative then value.neg else value)

open Ns3.Lib

/-! ## Digits as characters -/

def chars (ds : List Nat) : List Char := ds.map Nat.digitChar

def Digits (ds : List Nat) : Prop := ∀ d ∈ ds, d < 10

variable {ds rs : List Nat} {d : Nat}

theorem Digits.concat (h : Digits ds) (hd : d < 10) : Digits (ds ++ [d]) := by
  intro e he
  rcases List.mem_append.mp he with hold | hin
  · exact h e hold
  · rw [List.mem_singleton.mp hin]
    exact hd

theorem decimal_digit (hd : d < 10) : decimal d = chars [d] := Nat.toDigits_of_lt_base hd

theorem chars_append (ds es : List Nat) : chars (ds ++ es) = chars ds ++ chars es :=
  List.map_append

theorem digitChar_facts : ∀ d < 10, Nat.digitChar d ≠ '.' ∧ Nat.digitChar d ≠ '-' ∧
    isSpace (Nat.digitChar d) = false ∧ digitOf (Nat.digitChar d) = d ∧
    (d < 9 → Char.ofNat ((Nat.digitChar d).toNat + 1) = Nat.digitChar (d + 1) ∧
      Nat.digitChar (d + 1) ≤ '9') ∧
    (d = 9 → ¬Char.ofNat ((Nat.digitChar d).toNat + 1) ≤ '9') := by
  decide

/-! ## Rounding -/

theorem carryLoop_digits (hdigits : Digits rs) :
    ∃ rs' carry, Digits rs' ∧ rs'.length = rs.length ∧
      Nat.ofDigits 10 rs' + (if carry = true then 10 ^ rs.length else 0) =
        Nat.ofDigits 10 rs + 1 ∧
      ∀ rest, carryLoop (chars rs ++ rest) =
        if carry = true then (chars rs' ++ (carryLoop rest).1, (carryLoop rest).2)
        else (chars rs' ++ rest, false) := by
  induction rs with
  | nil => exact ⟨[], true, hdigits, rfl, rfl, fun rest => rfl⟩
  | cons r rs ih =>
    have hr := hdigits r (.head _)
    have hrs : Digits rs := fun e he => hdigits e (.tail _ he)
    obtain ⟨hpoint, -, -, -, hless, hnine⟩ := digitChar_facts r hr
    rcases Nat.lt_or_ge r 9 with hr9 | hr9
    · obtain ⟨hnext, hle⟩ := hless hr9
      refine ⟨(r + 1) :: rs, false, ?_, rfl, ?_, fun rest => ?_⟩
      · intro e he
        rcases List.mem_cons.mp he with rfl | hold
        · omega
        · exact hrs e hold
      · rw [Nat.ofDigits_cons, Nat.ofDigits_cons, if_neg Bool.false_ne_true]
        omega
      · change carryLoop (Nat.digitChar r :: (chars rs ++ rest)) = _
        rw [carryLoop, if_neg hpoint]
        dsimp only
        rw [hnext, if_pos hle]
        rfl
    · obtain rfl : r = 9 := by omega
      obtain ⟨rs', carry, hrs', hlen, hvalue, hloop⟩ := ih hrs
      refine ⟨0 :: rs', carry, ?_, ?_, ?_, fun rest => ?_⟩
      · intro e he
        rcases List.mem_cons.mp he with rfl | hold
        · decide
        · exact hrs' e hold
      · rw [List.length_cons, hlen, List.length_cons]
      · rw [Nat.ofDigits_cons, Nat.ofDigits_cons, List.length_cons, Nat.pow_succ]
        cases carry with
        | true =>
          rw [if_pos rfl] at hvalue ⊢
          omega
        | false =>
          rw [if_neg Bool.false_ne_true] at hvalue ⊢
          omega
      · change carryLoop (Nat.digitChar 9 :: (chars rs ++ rest)) = _
        rw [carryLoop, if_neg hpoint]
        dsimp only
        rw [if_neg (hnine rfl), hloop]
        split
        · rfl
        · rfl

theorem roundDigits_places (hi : List Char) (hdigits : Digits ds)
    (hlt : Fraction.value 10 ds + 1 < 10 ^ ds.length) :
    ∃ ds', Digits ds' ∧ ds'.length = ds.length ∧
      Fraction.value 10 ds' = Fraction.value 10 ds + 1 ∧
      roundDigits (hi ++ chars ds) = hi ++ chars ds' := by
  have hreversed : Digits ds.reverse := fun e he => hdigits e (List.mem_reverse.mp he)
  rw [Fraction.value, ← List.length_reverse] at hlt
  obtain ⟨rs', carry, hrs', hlen, hvalue, hloop⟩ := carryLoop_digits hreversed
  have hstops : ¬carry = true := by
    intro hcarry
    rw [if_pos hcarry] at hvalue
    omega
  rw [if_neg hstops, Nat.add_zero] at hvalue
  refine ⟨rs'.reverse, fun e he => hrs' e (List.mem_reverse.mp he), ?_, ?_, ?_⟩
  · rw [List.length_reverse, hlen, List.length_reverse]
  · rw [Fraction.value, List.reverse_reverse, hvalue]
    rfl
  · have hreverse : (hi ++ chars ds).reverse = chars ds.reverse ++ hi.reverse := by
      rw [List.reverse_append, chars, chars, List.map_reverse]
    rw [roundDigits, hreverse, hloop, if_neg hstops]
    simp [chars]

/-! ## Writing -/

section Write

variable {fmt : StreamFormat} {low : Int64x64} {r lo places fuel : Nat}

theorem mul_ten (hv : low.v = r) (hr : r < 2 ^ 64) :
    ∃ next, low.mul (ofInt 10) = .ok next ∧ next.v = (r * 10 : Nat) := by
  have hrange : -2 ^ 127 ≤ low.v * (10 : Nat) ∧ low.v * (10 : Nat) < 2 ^ 127 := by
    rw [hv]
    omega
  have hmul := mul_int low (k := 10) (by decide)
  rw [if_pos hrange] at hmul
  refine ⟨_, hmul, ?_⟩
  rw [ofWide_v hrange.1 hrange.2, hv, Nat.cast_mul]

theorem next_digit (hv : low.v = r) (hr : r < 2 ^ 64) :
    ∃ (d : Nat) (next rest : Int64x64), low.mul (ofInt 10) = .ok next ∧ next.getHigh = d ∧
      next.sub (ofInt d) = rest ∧ d = r * 10 / 2 ^ 64 ∧ rest.v = (r * 10 % 2 ^ 64 : Nat) ∧
      rest.getLow = r * 10 % 2 ^ 64 := by
  obtain ⟨next, hmul, hnext⟩ := mul_ten hv hr
  have hrest := sub_high hnext (by omega)
  refine ⟨r * 10 / 2 ^ 64, next, _, hmul, getHigh_of hnext, rfl, rfl, hrest, ?_⟩
  exact getLow_of hrest (Nat.mod_lt _ (Nat.two_pow_pos 64))

theorem digitLoop_step (fmt : StreamFormat) (fuel : Nat) (pre : List Char) (ds : List Nat)
    (hv : low.v = r) (hr : r < 2 ^ 64) :
    ∃ (d : Nat) (rest : Int64x64), d = r * 10 / 2 ^ 64 ∧ d < 10 ∧
      rest.v = (r * 10 % 2 ^ 64 : Nat) ∧ rest.getLow = r * 10 % 2 ^ 64 ∧
      digitLoop fmt (fuel + 1) low (pre ++ chars ds) ds.length =
        if (if fmt.floatfield then decide ((ds ++ [d]).length < fmt.precision)
          else r * 10 % 2 ^ 64 ≠ 0 && decide ((ds ++ [d]).length < 20)) = true then
          digitLoop fmt fuel rest (pre ++ chars (ds ++ [d])) (ds ++ [d]).length
        else .ok (rest, d, pre ++ chars (ds ++ [d])) := by
  obtain ⟨d, next, rest, hmul, hhigh, hsub, hd, hrest, hlow⟩ := next_digit hv hr
  have hd10 : d < 10 := by omega
  have hassert : (decide (0 ≤ (d : Int)) && decide ((d : Int) ≤ 9)) = true := by
    rw [Bool.and_eq_true, decide_eq_true_iff, decide_eq_true_iff]
    omega
  have hlength : (ds ++ [d]).length = ds.length + 1 := List.length_append
  refine ⟨d, rest, hd, hd10, hrest, hlow, ?_⟩
  rw [digitLoop, hmul, ok_bind]
  dsimp only
  rw [hhigh, nsAssert, if_pos hassert, ok_bind, hsub, Int.toNat_natCast, decimal_digit hd10,
    List.append_assoc, ← chars_append, hlow, hlength]
  rfl

def StreamFormat.maxPlaces (fmt : StreamFormat) : Nat :=
  if fmt.floatfield then fmt.precision else 20

theorem digitLoop_spec (pre : List Char) (hv : low.v = r) (hr : r < 2 ^ 64)
    (hleaves : Fraction.Leaves 10 (2 ^ 64) lo ds r) (hdigits : Digits ds)
    (hplaces : ds.length < fmt.maxPlaces) (hfuel : fmt.maxPlaces ≤ ds.length + fuel) :
    ∃ (low' : Int64x64) (es : List Nat) (d r' : Nat),
      digitLoop fmt fuel low (pre ++ chars ds) ds.length =
        .ok (low', d, pre ++ chars (es ++ [d])) ∧
      low'.v = (r' : Nat) ∧ r' < 2 ^ 64 ∧ Fraction.Leaves 10 (2 ^ 64) lo (es ++ [d]) r' ∧
      Digits (es ++ [d]) ∧
      ((es ++ [d]).length = fmt.maxPlaces ∨ fmt.floatfield = false ∧ r' = 0) := by
  induction fuel generalizing low r ds with
  | zero => omega
  | succ fuel ih =>
    obtain ⟨d, rest, hd, hd10, hrest, -, hround⟩ := digitLoop_step fmt fuel pre ds hv hr
    have hmod : r * 10 % 2 ^ 64 < 2 ^ 64 := Nat.mod_lt _ (Nat.two_pow_pos 64)
    have hdigits' := hdigits.concat hd10
    have hleaves' := hleaves.concat
    rw [← hd] at hleaves'
    have hlength : (ds ++ [d]).length = ds.length + 1 := List.length_append
    have hmore_iff : (if fmt.floatfield then decide ((ds ++ [d]).length < fmt.precision)
        else r * 10 % 2 ^ 64 ≠ 0 && decide ((ds ++ [d]).length < 20)) = true ↔
        (fmt.floatfield = false → r * 10 % 2 ^ 64 ≠ 0) ∧ (ds ++ [d]).length < fmt.maxPlaces := by
      cases hfmt : fmt.floatfield with
      | true => simp [StreamFormat.maxPlaces, hfmt]
      | false => simp [StreamFormat.maxPlaces, hfmt]
    by_cases hmore : (fmt.floatfield = false → r * 10 % 2 ^ 64 ≠ 0) ∧
        (ds ++ [d]).length < fmt.maxPlaces
    · rw [hround, if_pos (hmore_iff.mpr hmore)]
      exact ih hrest hmod hleaves' hdigits' hmore.2 (by omega)
    · rw [hround, if_neg (mt hmore_iff.mp hmore)]
      refine ⟨rest, ds, d, r * 10 % 2 ^ 64, rfl, hrest, hmod, hleaves', hdigits', ?_⟩
      by_contra hgo
      rw [not_or, not_and] at hgo
      exact hmore ⟨hgo.2, by omega⟩

theorem places_close (hleaves : Fraction.Leaves 10 (2 ^ 64) lo ds r)
    (hr : r = 0 ∨ ds.length = 20) (hlen : rs.length = ds.length)
    (hround : (Fraction.value 10 rs = Fraction.value 10 ds ∧ r * 10 / 2 ^ 64 ≤ 5 ∧ r < 2 ^ 64) ∨
      (Fraction.value 10 rs = Fraction.value 10 ds + 1 ∧ 5 ≤ r * 10 / 2 ^ 64 ∧ r < 2 ^ 64)) :
    Fraction.read 10 (2 ^ 64) 5 rs = lo := by
  rw [Fraction.Leaves] at hleaves
  rcases hr with rfl | hfull
  · -- nothing is left: the digits are exact
    have hvalue : Fraction.value 10 rs = Fraction.value 10 ds := by omega
    have hpos : 0 < 10 ^ ds.length := Nat.pow_pos (by decide)
    have hproduct : (10 - 1) * Fraction.value 10 ds * 2 ^ 64 = 9 * (lo * 10 ^ ds.length) := by
      rw [← hleaves]
      ring
    have hscaled : (10 - 1) * 10 ^ ds.length * lo = 9 * (lo * 10 ^ ds.length) := by ring
    apply Fraction.read_eq (by decide)
    · rw [hlen, hvalue, hproduct, Nat.mul_succ, hscaled]
      omega
    · rw [hlen, hvalue, hproduct, hscaled]
      omega
  · rw [hfull] at hleaves
    apply Fraction.read_eq (by decide)
    · rw [hlen, hfull]
      omega
    · rw [hlen, hfull]
      omega

theorem write_words (v : Int64x64) : ∃ low : Int64x64,
    (if v ≠ ofWords (-2 ^ 63) 0 then
      let absVal := if decide (v.v < 0) then v.neg else v
      ((absVal.getHigh % 2 ^ 64).toNat, ofWords 0 absVal.getLow)
    else (2 ^ 63, zero)) = (v.v.natAbs / 2 ^ 64, low) ∧ low.v = (v.v.natAbs % 2 ^ 64 : Nat) := by
  have hle := v.le_v
  have hlt := v.v_lt
  have hmin : (ofWords (-2 ^ 63) 0).v = -2 ^ 127 := rfl
  split
  · rename_i hne
    have hgt : v.v ≠ -2 ^ 127 := by
      intro heq
      exact hne (ext (heq.trans hmin.symm))
    have habs : (if decide (v.v < 0) then v.neg else v).v = (v.v.natAbs : Nat) := by
      split
      · rename_i hneg
        rw [decide_eq_true_iff] at hneg
        rw [neg, ofWide_v (by omega) (by omega)]
        omega
      · rename_i hpos
        rw [decide_eq_true_iff] at hpos
        omega
    generalize (if decide (v.v < 0) then v.neg else v) = absVal at habs
    have hlow : absVal.getLow = v.v.natAbs % 2 ^ 64 := by
      rw [getLow, habs]
      omega
    dsimp only
    refine ⟨ofWords 0 absVal.getLow, Prod.ext ?_ rfl, ?_⟩
    · dsimp only
      rw [getHigh_of habs]
      omega
    · rw [hlow, ofWords, ofWide_v (by omega) (by omega)]
      omega
  · rename_i heq
    rw [not_not] at heq
    refine ⟨zero, ?_, ?_⟩
    · rw [heq, hmin]
      rfl
    · rw [heq, hmin]
      rfl

/-- Without a precision, enough digits are written to read the value back. -/
theorem write_eq (fmt : StreamFormat) (hfmt : fmt.floatfield = false) (v : Int64x64) :
    ∃ ds, Digits ds ∧ Fraction.read 10 (2 ^ 64) 5 ds = v.v.natAbs % 2 ^ 64 ∧
      write fmt v = .ok ((if v.v < 0 then '-' else '+') ::
        (decimal (v.v.natAbs / 2 ^ 64) ++ '.' :: chars ds)) := by
  obtain ⟨low, hwords, hlow⟩ := write_words v
  have hlo : v.v.natAbs % 2 ^ 64 < 2 ^ 64 := Nat.mod_lt _ (Nat.two_pow_pos 64)
  have hempty : Digits [] := List.forall_mem_nil _
  have hmax : fmt.maxPlaces = 20 := by simp [StreamFormat.maxPlaces, hfmt]
  have hfuel : fmt.maxPlaces ≤ ([] : List Nat).length + max 20 fmt.precision := by simp [hmax]
  obtain ⟨low', es, d, r, hloop, hlow', hr, hleaves, hdigits, hend⟩ :=
    digitLoop_spec (decimal (v.v.natAbs / 2 ^ 64) ++ ['.']) hlow hlo Fraction.leaves_nil hempty
      (by simp [hmax]) hfuel
  rw [hmax] at hend
  generalize es ++ [d] = ds at hloop hleaves hdigits hend
  have hfull : r = 0 ∨ ds.length = 20 := hend.symm.imp_left And.right
  obtain ⟨next, hmul, hnext⟩ := mul_ten hlow' hr
  have hhigh := getHigh_of hnext
  rw [write, hwords]
  dsimp only
  rw [show chars [] = [] from rfl, List.append_nil, List.length_nil] at hloop
  rw [hloop, ok_bind]
  dsimp only
  rw [hmul, ok_bind, hhigh]
  have hsign : (if decide (v.v < 0) then ['-'] else ['+']) = [if v.v < 0 then '-' else '+'] := by
    by_cases hneg : v.v < 0
    · rw [if_pos (decide_eq_true hneg), if_pos hneg]
    · rw [if_neg (by simpa using hneg), if_neg hneg]
  rw [hsign]
  split
  · rename_i hround
    have hfive : 5 ≤ r * 10 / 2 ^ 64 := by omega
    have hlength : ds.length = 20 := by omega
    have hlt : Fraction.value 10 ds + 1 < 10 ^ ds.length := by
      rw [Fraction.Leaves, hlength] at hleaves
      rw [hlength]
      omega
    obtain ⟨rs, hrs, hlen, hvalue, hdone⟩ := roundDigits_places
      (decimal (v.v.natAbs / 2 ^ 64) ++ ['.']) hdigits hlt
    refine ⟨rs, hrs, places_close hleaves hfull hlen (.inr ⟨hvalue, hfive, hr⟩), ?_⟩
    rw [hdone, List.append_assoc, List.singleton_append]
    rfl
  · rename_i hround
    refine ⟨ds, hdigits, places_close hleaves hfull rfl (.inl ⟨rfl, by omega, hr⟩), ?_⟩
    rw [List.append_assoc, List.singleton_append]
    rfl

end Write

/-! ## Reading -/

section Read

variable {cs : List Char} {c : Char} {n : Nat}

theorem isDigit_iff : c.isDigit = true ↔ 48 ≤ c.toNat ∧ c.toNat ≤ 57 := by
  rw [Char.isDigit, Bool.and_eq_true, decide_eq_true_iff, decide_eq_true_iff]
  exact Iff.rfl

theorem isDigit_chars (h : Digits ds) : ∀ c ∈ chars ds, c.isDigit = true := by
  intro c hc
  obtain ⟨d, hd, rfl⟩ := List.mem_map.mp hc
  rw [Nat.isDigit_digitChar, decide_eq_true_iff]
  exact h d hd

theorem isDigit_decimal : ∀ c ∈ decimal n, c.isDigit = true := fun _ hc =>
  Nat.isDigit_of_mem_toDigits (by decide) (by decide) hc

theorem ne_of_isDigit {x : Char} (h : c.isDigit = true) (hx : x.isDigit = false) :
    (c == x) = false := by
  rw [beq_eq_false_iff_ne]
  rintro rfl
  rw [h] at hx
  cases hx

theorem not_isSpace (h : c.isDigit = true) : isSpace c = false := by
  obtain ⟨hle, -⟩ := isDigit_iff.mp h
  have hspace := ne_of_isDigit (x := ' ') h (by decide)
  rw [beq_eq_false_iff_ne] at hspace
  rw [isSpace, decide_eq_false hspace, Bool.false_or, Bool.and_eq_false_iff,
    decide_eq_false_iff_not, decide_eq_false_iff_not]
  omega

theorem readHiDigits_eq (h : ∀ c ∈ cs, c.isDigit = true) :
    readHiDigits cs = Nat.ofDigitChars 10 cs 0 % 2 ^ 64 := by
  have hall : (cs.takeWhile fun c => c.toNat ≠ 0) = cs := by
    apply List.takeWhile_eq_self_iff.mpr
    intro c hc
    have hdigit := isDigit_iff.mp (h c hc)
    rw [decide_eq_true_iff]
    omega
  have hfold : ∀ n, cs.foldl (fun retval c => ((retval * 10 + digitOf c) % 2 ^ 64).toNat)
      (n % 2 ^ 64) = Nat.ofDigitChars 10 cs n % 2 ^ 64 := by
    clear hall
    induction cs with
    | nil => exact fun n => rfl
    | cons c cs ih =>
      intro n
      have hdigit := isDigit_iff.mp (h c (.head _))
      have hzero : '0'.toNat = 48 := rfl
      have hstep : ((((n % 2 ^ 64 : Nat) : Int) * 10 + digitOf c) % 2 ^ 64).toNat =
          (10 * n + (c.toNat - '0'.toNat)) % 2 ^ 64 := by
        rw [digitOf, hzero]
        omega
      rw [List.foldl_cons, hstep, Nat.ofDigitChars_cons]
      exact ih (fun x hx => h x (.tail _ hx)) _
  rw [readHiDigits, hall]
  exact hfold 0

theorem readLoLoop_eq (h : Digits rs) {low : Int64x64} (hlow : low.v = n) (hn : n ≤ 2 ^ 64) :
    ∃ low', readLoLoop (chars rs) low = .ok low' ∧
      low'.v = (rs.foldl (fun low d => (low + d * 2 ^ 64 + 5) / 10) n : Nat) ∧
      rs.foldl (fun low d => (low + d * 2 ^ 64 + 5) / 10) n ≤ 2 ^ 64 := by
  induction rs generalizing low n with
  | nil => exact ⟨low, rfl, hlow, hn⟩
  | cons d rs ih =>
    have hd := h d (.head _)
    obtain ⟨-, -, -, hdigit, -⟩ := digitChar_facts d hd
    have hassert : (decide (0 ≤ (d : Int)) && decide ((d : Int) ≤ 9)) = true := by
      rw [Bool.and_eq_true, decide_eq_true_iff, decide_eq_true_iff]
      omega
    have hsum : (low.add (ofInt d)).v = n + d * 2 ^ 64 :=
      add_v hlow (ofInt_v (by omega) (by omega)) (by omega) (by omega)
    have hbias : (ofWords 0 5).v = 5 := rfl
    have htotal : ((low.add (ofInt d)).add (ofWords 0 5)).v = n + d * 2 ^ 64 + 5 :=
      add_v hsum hbias (by omega) (by omega)
    have hdiv := div_int (x := (low.add (ofInt d)).add (ofWords 0 5)) (k := 10) (by omega)
      (by decide) (by decide)
    have hquotient : (ofWide (((low.add (ofInt d)).add (ofWords 0 5)).v / (10 : Nat))).v =
        ((n + d * 2 ^ 64 + 5) / 10 : Nat) := by
      rw [htotal, ofWide_v (by omega) (by omega)]
      omega
    obtain ⟨low', hloop, hv, hle⟩ := ih (fun e he => h e (.tail _ he)) hquotient
      (by omega)
    refine ⟨low', ?_, hv, hle⟩
    change readLoLoop (Nat.digitChar d :: chars rs) low = _
    rw [readLoLoop, hdigit, nsAssert, if_pos hassert, ok_bind]
    change (((low.add (ofInt d)).add (ofWords 0 5)).div (ofInt (10 : Nat)) >>= _) = _
    rw [hdiv, ok_bind, hloop]

theorem readLoDigits_eq (h : Digits ds) (hlt : Fraction.read 10 (2 ^ 64) 5 ds < 2 ^ 64) :
    readLoDigits (chars ds) = .ok (Fraction.read 10 (2 ^ 64) 5 ds) := by
  have hreversed : Digits ds.reverse := fun e he => h e (List.mem_reverse.mp he)
  have hzero : zero.v = (0 : Nat) := rfl
  obtain ⟨low, hloop, hv, -⟩ := readLoLoop_eq hreversed hzero (Nat.zero_le _)
  rw [List.foldl_reverse] at hv
  have hreverse : (chars ds).reverse = chars ds.reverse := (List.map_reverse ..).symm
  rw [readLoDigits, hreverse, hloop, ok_bind, getLow_of hv hlt]
  rfl

/-- The text of a number: a sign, digits, the decimal point, and digits. -/
def text (negative : Bool) (hi lo : List Char) : List Char :=
  (if negative then '-' else '+') :: (hi ++ '.' :: lo)

variable {negative : Bool} {hi lo : List Char}

theorem findIdx?_digits {x : Char} (h : ∀ c ∈ cs, c.isDigit = true) (hx : x.isDigit = false) :
    cs.findIdx? (fun c => c == x) = none :=
  List.findIdx?_eq_none_iff.mpr fun c hc => ne_of_isDigit (h c hc) hx

theorem readWord_text (hhi : ∀ c ∈ hi, c.isDigit = true) (hlo : ∀ c ∈ lo, c.isDigit = true) :
    readWord (text negative hi lo) = text negative hi lo := by
  have hsign : isSpace (if negative then '-' else '+') = false := by
    cases negative with
    | true => rfl
    | false => rfl
  have hall : ∀ c ∈ text negative hi lo, !isSpace c := by
    intro c hc
    have hspace : isSpace c = false := by
      rcases List.mem_cons.mp hc with rfl | hc
      · exact hsign
      · rcases List.mem_append.mp hc with hin | hin
        · exact not_isSpace (hhi c hin)
        · rcases List.mem_cons.mp hin with rfl | hin
          · rfl
          · exact not_isSpace (hlo c hin)
    rw [hspace]
    rfl
  have hdrop : (text negative hi lo).dropWhile isSpace = text negative hi lo := by
    rw [text, List.dropWhile_cons_of_neg]
    rw [hsign]
    exact Bool.false_ne_true
  rw [readWord, hdrop]
  exact List.takeWhile_eq_self_iff.mpr hall

theorem find_sign (negative : Bool) (hhi : ∀ c ∈ hi, c.isDigit = true)
    (hlo : ∀ c ∈ lo, c.isDigit = true) :
    find (text negative hi lo) '-' (some 0) = (if negative then some 0 else none) ∧
      (negative = false → find (text negative hi lo) '+' (some 0) = some 0) := by
  have hminus : (hi ++ '.' :: lo).findIdx? (fun c => c == '-') = none := by
    rw [List.findIdx?_append, findIdx?_digits hhi rfl, List.findIdx?_cons, findIdx?_digits hlo rfl]
    rfl
  cases negative with
  | true => exact ⟨rfl, fun h => nomatch h⟩
  | false =>
    refine ⟨?_, fun _ => rfl⟩
    change ((List.findIdx? (fun x => x == '-') ('+' :: (hi ++ '.' :: lo))).map _) = none
    rw [List.findIdx?_cons, hminus]
    rfl

theorem find_point (hhi : ∀ c ∈ hi, c.isDigit = true) :
    find (text negative hi lo) '.' (some 1) = some (1 + hi.length) := by
  change (((hi ++ '.' :: lo).findIdx? fun x => x == '.').map _) = _
  rw [List.findIdx?_append, findIdx?_digits hhi rfl, List.findIdx?_cons]
  simp

theorem substr_hi : substr (text negative hi lo) 1 (1 + hi.length - 1) = hi := by
  rw [substr, Nat.add_sub_cancel_left, text, List.drop_succ_cons, List.drop_zero,
    List.take_left]

theorem substr_lo : substr (text negative hi lo) (1 + hi.length + 1)
    ((text negative hi lo).length - (1 + hi.length + 1)) = lo := by
  have hdrop : (text negative hi lo).drop (1 + hi.length + 1) = lo := by
    rw [text, List.drop_succ_cons, Nat.add_comm 1, ← List.drop_drop, List.drop_left]
    rfl
  rw [substr, ← List.length_drop, hdrop, List.take_length]

theorem read_text (hhi : ∀ c ∈ hi, c.isDigit = true) (hds : Digits ds)
    (hlt : Fraction.read 10 (2 ^ 64) 5 ds < 2 ^ 64) :
    read (text negative hi (chars ds)) =
      .ok (let value := ofWords (toInt64 (Nat.ofDigitChars 10 hi 0 % 2 ^ 64 : Nat))
            (Fraction.read 10 (2 ^ 64) 5 ds)
          if negative then value.neg else value) := by
  have hlo := isDigit_chars hds
  obtain ⟨hminus, hplus⟩ := find_sign negative hhi hlo
  have hcur : (text negative hi (chars ds)).findIdx? (fun c => c ≠ ' ') = some 0 := by
    cases negative with
    | true => rfl
    | false => rfl
  rw [read, readWord_text hhi hlo]
  dsimp only
  have hrest : ∀ cur, cur = some 1 → (do
      let (hi, lo) ←
        match cur, find (text negative hi (chars ds)) '.' cur with
        | some cur, some next => do
            let lo ← readLoDigits (substr (text negative hi (chars ds)) (next + 1)
              ((text negative hi (chars ds)).length - (next + 1)))
            pure (toInt64 (readHiDigits
              (substr (text negative hi (chars ds)) cur (next - cur))), lo)
        | some cur, none => pure (toInt64 (readHiDigits
            (substr (text negative hi (chars ds)) cur
              ((text negative hi (chars ds)).length - cur))), 0)
        | none, _ => pure (0, 0)
      let value := ofWords hi lo
      pure (if negative then value.neg else value) : Except Fault Int64x64) =
      .ok (let value := ofWords (toInt64 (Nat.ofDigitChars 10 hi 0 % 2 ^ 64 : Nat))
            (Fraction.read 10 (2 ^ 64) 5 ds)
          if negative then value.neg else value) := by
    rintro cur rfl
    rw [find_point hhi]
    dsimp only
    rw [substr_lo, substr_hi, readLoDigits_eq hds hlt, ok_bind, readHiDigits_eq hhi]
    simp only [pure, Except.pure, ok_bind]
  rw [hcur, hminus]
  cases negative with
  | true => exact hrest _ rfl
  | false =>
    rw [hplus rfl]
    exact hrest _ rfl

end Read

/-! ## The round trip -/

theorem ofWords_natAbs (v : Int64x64) :
    (if v.v < 0 then
        (ofWords (toInt64 (v.v.natAbs / 2 ^ 64 : Nat)) (v.v.natAbs % 2 ^ 64)).neg
      else ofWords (toInt64 (v.v.natAbs / 2 ^ 64 : Nat)) (v.v.natAbs % 2 ^ 64)) = v := by
  have hle := v.le_v
  have hlt := v.v_lt
  by_cases hmin : v.v = -2 ^ 127
  · rw [if_pos (by omega), hmin]
    exact ext (Eq.trans (by decide) hmin.symm)
  · have hhigh : toInt64 (v.v.natAbs / 2 ^ 64 : Nat) = (v.v.natAbs / 2 ^ 64 : Nat) :=
      toInt64_eq (by omega) (by omega)
    have hwords : (ofWords (toInt64 (v.v.natAbs / 2 ^ 64 : Nat)) (v.v.natAbs % 2 ^ 64)).v =
        (v.v.natAbs : Nat) := by
      rw [ofWords, hhigh, ofWide_v (by omega) (by omega)]
      omega
    apply ext
    split
    · rw [neg, hwords, ofWide_v (by omega) (by omega)]
      omega
    · rw [hwords]
      omega

/-- **The round trip.**  What is written without a `floatfield` flag is read back exactly. -/
theorem read_write (precision : Nat) (v : Int64x64) :
    ∃ str, write { floatfield := false, precision } v = .ok str ∧
      read str = .ok v := by
  obtain ⟨ds, hds, hread, hwrite⟩ :=
    write_eq { floatfield := false, precision } rfl v
  have hlt : Fraction.read 10 (2 ^ 64) 5 ds < 2 ^ 64 := by
    rw [hread]
    exact Nat.mod_lt _ (Nat.two_pow_pos 64)
  have htext : (if v.v < 0 then '-' else '+') ::
      (decimal (v.v.natAbs / 2 ^ 64) ++ '.' :: chars ds) =
      text (decide (v.v < 0)) (decimal (v.v.natAbs / 2 ^ 64)) (chars ds) := by
    rw [text]
    simp only [decide_eq_true_eq]
  have hle := v.le_v
  have hv := v.v_lt
  have hsmall : v.v.natAbs / 2 ^ 64 % 2 ^ 64 = v.v.natAbs / 2 ^ 64 := by omega
  refine ⟨_, hwrite, ?_⟩
  rw [htext, read_text isDigit_decimal hds hlt, decimal,
    Nat.ofDigitChars_ten_toDigits, hread, hsmall]
  simp only [decide_eq_true_eq]
  exact congrArg Except.ok (ofWords_natAbs v)

end Ns3.Int64x64
