/-
  Which fixed-point numbers are rounded to nearest when they
  are written with a given number of decimal places.

  The writer decides on the last place by looking at the first digit that it does not print.
  A digit 5 after an even one is taken for a tie, whatever follows it.
-/
import Ns3.Core.Int64x64Text

namespace Ns3.Int64x64

open Ns3.Lib

/-! ## Rounding to nearest -/

/-- How far `m` whole units are from `n`, which counts the `2 ^ 64` parts of a unit. -/
def distance (n m : Nat) : Nat := ((n : Int) - m * 2 ^ 64).natAbs

/-- `m` is `n` rounded to the nearest whole unit, and to an even one in a tie. -/
structure RoundsNearestEven (n m : Nat) : Prop where
  nearest : ∀ k, distance n m ≤ distance n k
  even : ∀ k, k ≠ m → distance n k = distance n m → m % 2 = 0

/-- The text of `v` with `precision` places: its digits are the number of units of the last place
that is nearest to the magnitude. -/
def CorrectlyRounded (precision : Nat) (v : Int64x64) (str : List Char) : Prop :=
  ∃ hi lo, str = text (decide (v.v < 0)) hi lo ∧ (∀ c ∈ hi, c.isDigit = true) ∧
    (∀ c ∈ lo, c.isDigit = true) ∧ lo.length = precision ∧
    RoundsNearestEven (v.v.natAbs * 10 ^ precision) (Nat.ofDigitChars 10 (hi ++ lo) 0)

variable {n m : Nat}

theorem rounds_down_iff :
    RoundsNearestEven n (n / 2 ^ 64) ↔
      n % 2 ^ 64 < 2 ^ 63 ∨ (n % 2 ^ 64 = 2 ^ 63 ∧ n / 2 ^ 64 % 2 = 0) := by
  constructor
  · rintro ⟨hnearest, heven⟩
    have hnext := hnearest (n / 2 ^ 64 + 1)
    have htie := heven (n / 2 ^ 64 + 1) (Nat.succ_ne_self _)
    unfold distance at hnext htie
    omega
  · intro h
    refine ⟨fun k => ?_, fun k hk => ?_⟩
    · unfold distance
      omega
    · unfold distance
      omega

theorem rounds_up_iff :
    RoundsNearestEven n (n / 2 ^ 64 + 1) ↔
      2 ^ 63 < n % 2 ^ 64 ∨ (n % 2 ^ 64 = 2 ^ 63 ∧ n / 2 ^ 64 % 2 = 1) := by
  constructor
  · rintro ⟨hnearest, heven⟩
    have hnext := hnearest (n / 2 ^ 64)
    have htie := heven (n / 2 ^ 64) (Nat.succ_ne_self _).symm
    unfold distance at hnext htie
    omega
  · intro h
    refine ⟨fun k => ?_, fun k hk => ?_⟩
    · unfold distance
      omega
    · unfold distance
      omega

/-! ## Digits before and after the point -/

variable {hs ds : List Nat}

theorem value_append (hs ds : List Nat) : Fraction.value 10 (hs ++ ds) =
    Fraction.value 10 hs * 10 ^ ds.length + Fraction.value 10 ds := by
  rw [Fraction.value, List.reverse_append, Nat.ofDigits_append, List.length_reverse,
    ← Fraction.value, ← Fraction.value, Nat.add_comm, Nat.mul_comm]

theorem ofDigitChars_chars (hdigits : Digits ds) (n : Nat) :
    Nat.ofDigitChars 10 (chars ds) n = n * 10 ^ ds.length + Fraction.value 10 ds := by
  induction ds generalizing n with
  | nil => simp [chars]
  | cons d ds ih =>
    have hrest : Digits ds := fun e he => hdigits e (.tail _ he)
    change Nat.ofDigitChars 10 (Nat.digitChar d :: chars ds) n = _
    rw [Nat.ofDigitChars_cons_digitChar_of_lt_ten (hdigits d (.head _)), ih hrest,
      Fraction.value_cons, List.length_cons, Nat.pow_succ]
    ring

theorem digitChar_of_isDigit {c : Char} (h : c.isDigit = true) :
    Nat.digitChar (c.toNat - 48) = c ∧ c.toNat - 48 < 10 := by
  obtain ⟨hle, hge⟩ := isDigit_iff.mp h
  have hall : ∀ d < 10, (Nat.digitChar d).toNat = d + 48 := by decide
  refine ⟨?_, by omega⟩
  apply Char.ext
  apply UInt32.toNat_inj.mp
  have hd := hall (c.toNat - 48) (by omega)
  change (Nat.digitChar (c.toNat - 48)).toNat = c.toNat
  omega

theorem decimal_digits (n : Nat) :
    ∃ hs, Digits hs ∧ decimal n = chars hs ∧ Fraction.value 10 hs = n := by
  have hdecimal : decimal n = chars ((decimal n).map fun c => c.toNat - 48) := by
    rw [chars, List.map_map]
    refine (List.map_id _).symm.trans (List.map_congr_left fun c hc => ?_)
    exact (digitChar_of_isDigit (isDigit_decimal c hc)).1.symm
  have hdigits : Digits ((decimal n).map fun c => c.toNat - 48) := by
    intro d hd
    obtain ⟨c, hc, rfl⟩ := List.mem_map.mp hd
    exact (digitChar_of_isDigit (isDigit_decimal c hc)).2
  refine ⟨_, hdigits, hdecimal, ?_⟩
  have hvalue := ofDigitChars_chars hdigits 0
  rw [← hdecimal, Nat.zero_mul, Nat.zero_add] at hvalue
  exact hvalue.symm.trans Nat.ofDigitChars_ten_toDigits

theorem Digits.append (hhs : Digits hs) (hds : Digits ds) : Digits (hs ++ ds) := by
  intro d hd
  rcases List.mem_append.mp hd with hin | hin
  · exact hhs d hin
  · exact hds d hin

theorem Digits.reverse (hds : Digits ds) : Digits ds.reverse :=
  fun d hd => hds d (List.mem_reverse.mp hd)

theorem roundDigits_text (hhs : Digits hs) (hds : Digits ds) :
    ∃ hs' ds', Digits hs' ∧ Digits ds' ∧ ds'.length = ds.length ∧
      Fraction.value 10 (hs' ++ ds') = Fraction.value 10 (hs ++ ds) + 1 ∧
      roundDigits (chars hs ++ '.' :: chars ds) = chars hs' ++ '.' :: chars ds' := by
  obtain ⟨rs, carry, hrs, hlen, hvalue, hloop⟩ := carryLoop_digits hds.reverse
  obtain ⟨ts, carry', hts, hlen', hvalue', hloop'⟩ := carryLoop_digits hhs.reverse
  have hreverse : (chars hs ++ '.' :: chars ds).reverse =
      chars ds.reverse ++ '.' :: chars hs.reverse := by
    simp [chars]
  have hpoint : carryLoop ('.' :: chars hs.reverse) =
      ('.' :: (carryLoop (chars hs.reverse)).1, (carryLoop (chars hs.reverse)).2) := by
    rw [carryLoop, if_pos rfl]
  have hinteger := hloop' []
  rw [List.append_nil, List.append_nil] at hinteger
  rw [List.length_reverse] at hlen hvalue hlen' hvalue'
  have hlow : Fraction.value 10 rs.reverse = Nat.ofDigits 10 rs := by
    rw [Fraction.value, List.reverse_reverse]
  have hhigh : Fraction.value 10 ts.reverse = Nat.ofDigits 10 ts := by
    rw [Fraction.value, List.reverse_reverse]
  rw [← hlow, ← Fraction.value] at hvalue
  rw [← hhigh, ← Fraction.value] at hvalue'
  have hplaces : rs.reverse.length = ds.length := by rw [List.length_reverse, hlen]
  rw [roundDigits, hreverse, hloop, hpoint, hinteger]
  cases carry with
  | false =>
    rw [if_neg Bool.false_ne_true, Nat.add_zero] at hvalue
    refine ⟨hs, rs.reverse, hhs, hrs.reverse, hplaces, ?_, ?_⟩
    · rw [value_append, value_append, hplaces, hvalue, Nat.add_assoc]
    · simp [chars]
  | true =>
    rw [if_pos rfl] at hvalue
    cases carry' with
    | false =>
      rw [if_neg Bool.false_ne_true, Nat.add_zero] at hvalue'
      refine ⟨ts.reverse, rs.reverse, hts.reverse, hrs.reverse, hplaces, ?_, ?_⟩
      · rw [value_append, value_append, hplaces, hvalue', Nat.add_mul, Nat.one_mul]
        omega
      · simp [chars]
    | true =>
      rw [if_pos rfl] at hvalue'
      have hone : Digits (1 :: ts.reverse) := by
        intro d hd
        rcases List.mem_cons.mp hd with rfl | hin
        · decide
        · exact hts.reverse d hin
      refine ⟨1 :: ts.reverse, rs.reverse, hone, hrs.reverse, hplaces, ?_, ?_⟩
      · have hsum : Fraction.value 10 (1 :: ts.reverse) = Fraction.value 10 hs + 1 := by
          rw [Fraction.value_cons, List.length_reverse, hlen', Nat.one_mul, Nat.add_comm, hvalue']
        rw [value_append, value_append, hplaces, hsum, Nat.add_mul, Nat.one_mul]
        omega
      · simp [chars, carryLoop, Nat.digitChar]

/-! ## The writer -/

section Fixed

variable {fmt : StreamFormat}

def nextDigit (n : Nat) : Nat := n % 2 ^ 64 * 10 / 2 ^ 64

/-- What is written in fixed mode: the value scaled, rounded by its next digit. -/
theorem write_fixed (hfmt : fmt.floatfield = true) (hplaces : 0 < fmt.precision) (v : Int64x64) :
    ∃ hs ds, Digits hs ∧ Digits ds ∧ ds.length = fmt.precision ∧
      write fmt v = .ok (text (decide (v.v < 0)) (chars hs) (chars ds)) ∧
      Fraction.value 10 (hs ++ ds) =
        if 5 < nextDigit (v.v.natAbs * 10 ^ fmt.precision) ∨
            (nextDigit (v.v.natAbs * 10 ^ fmt.precision) = 5 ∧
              v.v.natAbs * 10 ^ fmt.precision / 2 ^ 64 % 2 = 1) then
          v.v.natAbs * 10 ^ fmt.precision / 2 ^ 64 + 1
        else v.v.natAbs * 10 ^ fmt.precision / 2 ^ 64 := by
  obtain ⟨low, hwords, hlow⟩ := write_words v
  have hlo : v.v.natAbs % 2 ^ 64 < 2 ^ 64 := Nat.mod_lt _ (Nat.two_pow_pos 64)
  have hempty : Digits [] := List.forall_mem_nil _
  have hmax : fmt.maxPlaces = fmt.precision := if_pos hfmt
  have hfuel : fmt.maxPlaces ≤ ([] : List Nat).length + max 20 fmt.precision := by simp [hmax]
  obtain ⟨hs, hhs, hdecimal, hinteger⟩ := decimal_digits (v.v.natAbs / 2 ^ 64)
  obtain ⟨low', es, d, r, hloop, hlow', hr, hleaves, hdigits, hend⟩ :=
    digitLoop_spec (decimal (v.v.natAbs / 2 ^ 64) ++ ['.']) hlow hlo Fraction.leaves_nil hempty
      (hmax ▸ hplaces) hfuel
  have hlength : (es ++ [d]).length = fmt.precision := by
    rcases hend with hfull | ⟨hfree, -⟩
    · exact hfull.trans hmax
    · rw [hfmt] at hfree
      cases hfree
  obtain ⟨next, hmul, hnext⟩ := mul_ten hlow' hr
  have hhigh := getHigh_of hnext
  have hpow : 10 ^ fmt.precision = 10 * 10 ^ es.length := by
    rw [← hlength, List.length_append, List.length_singleton, Nat.pow_succ, Nat.mul_comm]
  -- the exact number of units, and what it leaves
  have hexact : v.v.natAbs * 10 ^ fmt.precision =
      Fraction.value 10 (hs ++ (es ++ [d])) * 2 ^ 64 + r := by
    rw [Fraction.Leaves, hlength] at hleaves
    rw [value_append, hlength, hinteger, Nat.add_mul, Nat.add_assoc, hleaves]
    calc v.v.natAbs * 10 ^ fmt.precision
        = (2 ^ 64 * (v.v.natAbs / 2 ^ 64) + v.v.natAbs % 2 ^ 64) * 10 ^ fmt.precision := by
          rw [Nat.div_add_mod]
      _ = v.v.natAbs / 2 ^ 64 * 10 ^ fmt.precision * 2 ^ 64 +
            v.v.natAbs % 2 ^ 64 * 10 ^ fmt.precision := by ring
  have hunits : v.v.natAbs * 10 ^ fmt.precision / 2 ^ 64 =
      Fraction.value 10 (hs ++ (es ++ [d])) := by omega
  have hrest : v.v.natAbs * 10 ^ fmt.precision % 2 ^ 64 = r := by omega
  have hparity : Fraction.value 10 (hs ++ (es ++ [d])) % 2 = d % 2 := by
    rw [value_append, hlength, hpow, Fraction.value_concat]
    have heven : Fraction.value 10 hs * (10 * 10 ^ es.length) =
        2 * (5 * (Fraction.value 10 hs * 10 ^ es.length)) := by ring
    rw [heven]
    omega
  have hsign : (if decide (v.v < 0) then ['-'] else ['+']) =
      [if decide (v.v < 0) then '-' else '+'] := by
    cases decide (v.v < 0) with
    | true => rfl
    | false => rfl
  rw [write, hwords]
  dsimp only
  rw [show chars [] = [] from rfl, List.append_nil, List.length_nil] at hloop
  rw [hloop, ok_bind]
  dsimp only
  rw [hmul, ok_bind, hhigh, hsign, hunits, nextDigit, hrest, hparity, List.append_assoc,
    List.singleton_append, hdecimal]
  have hcast : (5 < ((r * 10 / 2 ^ 64 : Nat) : Int) ∨
      ((r * 10 / 2 ^ 64 : Nat) : Int) = 5 ∧ (d : Int) % 2 = 1) ↔
      (5 < r * 10 / 2 ^ 64 ∨ r * 10 / 2 ^ 64 = 5 ∧ d % 2 = 1) := by omega
  by_cases hup : 5 < r * 10 / 2 ^ 64 ∨ r * 10 / 2 ^ 64 = 5 ∧ d % 2 = 1
  · obtain ⟨hs', ds', hhs', hds', hlen', hvalue, hdone⟩ := roundDigits_text hhs hdigits
    refine ⟨hs', ds', hhs', hds', hlen'.trans hlength, ?_, ?_⟩
    · rw [if_pos (hcast.mpr hup), hdone]
      rfl
    · rw [if_pos hup, hvalue]
  · refine ⟨hs, es ++ [d], hhs, hdigits, hlength, ?_, ?_⟩
    · rw [if_neg (mt hcast.mp hup)]
      rfl
    · rw [if_neg hup]

theorem filter_text {hi lo : List Char} {negative : Bool} (hhi : ∀ c ∈ hi, c.isDigit = true)
    (hlo : ∀ c ∈ lo, c.isDigit = true) : (text negative hi lo).filter Char.isDigit = hi ++ lo := by
  have hsign : ¬(if negative then '-' else '+').isDigit = true := by
    cases negative with
    | true => decide
    | false => decide
  rw [text, List.filter_cons_of_neg hsign, List.filter_append,
    List.filter_cons_of_neg (by decide), List.filter_eq_self.mpr hhi, List.filter_eq_self.mpr hlo]

/-- The last place is even, the next digit is 5, and other digits than zeros follow. -/
def LosesTail (n : Nat) : Prop :=
  n / 2 ^ 64 % 2 = 0 ∧ nextDigit n = 5 ∧ n % 2 ^ 64 * 10 % 2 ^ 64 ≠ 0

theorem roundsUp_iff (hup : 5 < nextDigit n ∨ (nextDigit n = 5 ∧ n / 2 ^ 64 % 2 = 1)) :
    RoundsNearestEven n (n / 2 ^ 64 + 1) ↔ ¬LosesTail n := by
  have hdigit := Nat.div_add_mod (n % 2 ^ 64 * 10) (2 ^ 64)
  rw [rounds_up_iff, LosesTail]
  unfold nextDigit at hup ⊢
  generalize n % 2 ^ 64 * 10 / 2 ^ 64 = q at hup hdigit ⊢
  generalize n / 2 ^ 64 % 2 = parity at hup ⊢
  generalize n % 2 ^ 64 = r at hdigit ⊢
  generalize r * 10 % 2 ^ 64 = tail at hdigit ⊢
  rcases hup with hsix | ⟨rfl, rfl⟩
  · exact iff_of_true (.inl (by omega)) (fun h => by omega)
  · refine iff_of_true ?_ (fun h => by omega)
    rcases Nat.eq_or_lt_of_le (show 2 ^ 63 ≤ r by omega) with heq | hlt
    · exact .inr ⟨heq.symm, rfl⟩
    · exact .inl hlt

theorem roundsDown_iff (hdown : ¬(5 < nextDigit n ∨ (nextDigit n = 5 ∧ n / 2 ^ 64 % 2 = 1))) :
    RoundsNearestEven n (n / 2 ^ 64) ↔ ¬LosesTail n := by
  have hdigit := Nat.div_add_mod (n % 2 ^ 64 * 10) (2 ^ 64)
  have htail := Nat.mod_lt (n % 2 ^ 64 * 10) (Nat.two_pow_pos 64)
  have hbit := Nat.mod_lt (n / 2 ^ 64) Nat.two_pos
  rw [rounds_down_iff, LosesTail]
  unfold nextDigit at hdown ⊢
  generalize n % 2 ^ 64 * 10 / 2 ^ 64 = q at hdown hdigit ⊢
  generalize n / 2 ^ 64 % 2 = parity at hdown hbit ⊢
  generalize n % 2 ^ 64 = r at hdigit htail ⊢
  generalize r * 10 % 2 ^ 64 = tail at hdigit htail ⊢
  rcases Nat.lt_or_ge q 5 with hless | hfive
  · exact iff_of_true (.inl (by omega)) (fun h => by omega)
  · obtain ⟨rfl, rfl⟩ : q = 5 ∧ parity = 0 := by omega
    by_cases hzero : tail = 0
    · exact iff_of_true (.inr ⟨by omega, rfl⟩) (fun h => h.2.2 hzero)
    · exact iff_of_false (by omega) (not_not.mpr ⟨rfl, rfl, hzero⟩)

/-- **Which numbers are written correctly rounded.**  With a `floatfield` flag and one place or
more, all but those for which a 5 with a tail is taken for a tie. -/
theorem write_correctlyRounded_iff (hfmt : fmt.floatfield = true) (hplaces : 0 < fmt.precision)
    (v : Int64x64) :
    (∃ str, write fmt v = .ok str ∧ CorrectlyRounded fmt.precision v str) ↔
      ¬LosesTail (v.v.natAbs * 10 ^ fmt.precision) := by
  obtain ⟨hs, ds, hhs, hds, hlength, hwrite, hvalue⟩ := write_fixed hfmt hplaces v
  have hdigits := hhs.append hds
  have hread : Nat.ofDigitChars 10 (chars hs ++ chars ds) 0 = Fraction.value 10 (hs ++ ds) := by
    rw [← chars_append, ofDigitChars_chars hdigits, Nat.zero_mul, Nat.zero_add]
  have hrounded : (∃ str, write fmt v = .ok str ∧ CorrectlyRounded fmt.precision v str) ↔
      RoundsNearestEven (v.v.natAbs * 10 ^ fmt.precision) (Fraction.value 10 (hs ++ ds)) := by
    constructor
    · rintro ⟨str, hstr, hi, lo, rfl, hhi, hlo, -, hnearest⟩
      rw [hwrite, Except.ok.injEq] at hstr
      have hsame := congrArg (List.filter Char.isDigit) hstr
      rw [filter_text (isDigit_chars hhs) (isDigit_chars hds), filter_text hhi hlo] at hsame
      rwa [← hsame, hread] at hnearest
    · intro h
      refine ⟨_, hwrite, chars hs, chars ds, rfl, isDigit_chars hhs, isDigit_chars hds, ?_, ?_⟩
      · rw [chars, List.length_map, hlength]
      · rwa [hread]
  rw [hrounded, hvalue]
  split
  · rename_i hup
    exact roundsUp_iff hup
  · rename_i hdown
    exact roundsDown_iff hdown

theorem write_correctlyRounded_iff_carry :
    ∃ str, write { floatfield := true, precision := 2 } (ofWords 9 (2 ^ 64 - 1)) = .ok str ∧
      CorrectlyRounded 2 (ofWords 9 (2 ^ 64 - 1)) str := by
  refine (write_correctlyRounded_iff rfl (by decide) (ofWords 9 (2 ^ 64 - 1))).mpr ?_
  rintro ⟨-, hnext, -⟩
  exact absurd hnext (by decide)

/-- A little more than 0.25, written with one place, becomes 0.2. -/
theorem quarter_loses_tail :
    ¬∃ str, write { floatfield := true, precision := 1 } (ofWords 0 (2 ^ 62 + 1)) = .ok str ∧
      CorrectlyRounded 1 (ofWords 0 (2 ^ 62 + 1)) str := by
  rintro ⟨str, hwrite, hi, lo, rfl, hhi, hlo, -, hnearest, -⟩
  have htext : write { floatfield := true, precision := 1 } (ofWords 0 (2 ^ 62 + 1)) =
      .ok ['+', '0', '.', '2'] := by decide +kernel
  rw [htext, Except.ok.injEq] at hwrite
  have hsame := congrArg (List.filter Char.isDigit) hwrite
  rw [filter_text hhi hlo] at hsame
  rw [← hsame] at hnearest
  exact absurd (hnearest 3) (by decide +kernel)

end Fixed

end Ns3.Int64x64
