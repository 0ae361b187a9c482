/-
  When the operations on fixed-point numbers are exact.

  Each rule gives the value of an operation on operands for which no word overflows.
-/
import Ns3.Core.Int64x64
import Ns3.Lib.Fraction

namespace Ns3.Int64x64

open Ns3.Lib

variable {x y : Int64x64} {a b k n t : Nat}

/-! ## Conversions -/

theorem ofWide_v {n : Int} (hle : -2 ^ 127 ≤ n) (hlt : n < 2 ^ 127) : (ofWide n).v = n := by
  apply Int.bmod_eq_of_le_mul_two
  · change -2 ^ 128 ≤ n * 2
    omega
  · change n * 2 < 2 ^ 128
    omega

theorem ofWide_self (x : Int64x64) : ofWide x.v = x :=
  ext (ofWide_v x.le_v x.v_lt)

theorem ofInt_v {n : Int} (hle : -2 ^ 63 ≤ n) (hlt : n < 2 ^ 63) : (ofInt n).v = n * 2 ^ 64 := by
  apply ofWide_v
  · omega
  · omega

theorem toInt64_eq {n : Int} (hle : -2 ^ 63 ≤ n) (hlt : n < 2 ^ 63) : toInt64 n = n := by
  apply Int.bmod_eq_of_le_mul_two
  · change -2 ^ 64 ≤ n * 2
    omega
  · change n * 2 < 2 ^ 64
    omega

theorem magnitude_eq {n : Int} (hle : -2 ^ 127 ≤ n) (hlt : n < 2 ^ 127) :
    magnitude n = n.natAbs := by
  dsimp only [magnitude, toUnsigned, wsub]
  split
  · omega
  · omega

theorem toUnsigned_eq {n : Int} (hle : 0 ≤ n) (hlt : n < 2 ^ 127) : toUnsigned n = n.toNat := by
  dsimp only [toUnsigned]
  omega

theorem getLow_of (hv : x.v = n) (hn : n < 2 ^ 64) : x.getLow = n := by
  rw [getLow, hv]
  omega

theorem getHigh_of (hv : x.v = n) : x.getHigh = (n / 2 ^ 64 : Nat) := by
  rw [getHigh, hv]
  omega

theorem sub_high (hv : x.v = n) (hn : n < 2 ^ 127) :
    (x.sub (ofInt (n / 2 ^ 64 : Nat))).v = (n % 2 ^ 64 : Nat) := by
  have hsub : x.v - (ofInt (n / 2 ^ 64 : Nat)).v = (n % 2 ^ 64 : Nat) := by
    rw [hv, ofInt_v (by omega) (by omega)]
    omega
  rw [sub, hsub, ofWide_v (by omega) (by omega)]

theorem add_v {m n : Int} (hx : x.v = m) (hy : y.v = n) (hle : -2 ^ 127 ≤ m + n)
    (hlt : m + n < 2 ^ 127) : (x.add y).v = m + n := by
  rw [add, hx, hy, ofWide_v hle hlt]

/-! ## Multiplication -/

theorem wmul_eq {w : Nat} (h : a * b < 2 ^ w) : wmul w a b = a * b := Nat.mod_eq_of_lt h

theorem wshl_eq {w : Nat} (h : a * 2 ^ n < 2 ^ w) : wshl w a n = a * 2 ^ n :=
  Nat.mod_eq_of_lt h

/-- No 128-bit operation of `Umul` overflows. -/
structure NoOverflow (a b : Nat) : Prop where
  low : a % 2 ^ 64 * (b % 2 ^ 64) < 2 ^ 128
  left : a / 2 ^ 64 * (b % 2 ^ 64) < 2 ^ 128
  right : a % 2 ^ 64 * (b / 2 ^ 64) < 2 ^ 128
  mid : a / 2 ^ 64 * (b % 2 ^ 64) + a % 2 ^ 64 * (b / 2 ^ 64) < 2 ^ 128
  res : a % 2 ^ 64 * (b % 2 ^ 64) / 2 ^ 64 +
    (a / 2 ^ 64 * (b % 2 ^ 64) + a % 2 ^ 64 * (b / 2 ^ 64)) < 2 ^ 128
  high : a / 2 ^ 64 * (b / 2 ^ 64) < 2 ^ 128
  shifted : a / 2 ^ 64 * (b / 2 ^ 64) * 2 ^ 64 < 2 ^ 128
  sum : a % 2 ^ 64 * (b % 2 ^ 64) / 2 ^ 64 +
    (a / 2 ^ 64 * (b % 2 ^ 64) + a % 2 ^ 64 * (b / 2 ^ 64)) +
    a / 2 ^ 64 * (b / 2 ^ 64) * 2 ^ 64 < 2 ^ 128

theorem product_split (a b : Nat) : a * b / 2 ^ 64 =
    a % 2 ^ 64 * (b % 2 ^ 64) / 2 ^ 64 +
      (a / 2 ^ 64 * (b % 2 ^ 64) + a % 2 ^ 64 * (b / 2 ^ 64)) +
      a / 2 ^ 64 * (b / 2 ^ 64) * 2 ^ 64 := by
  have hsplit : a * b = a / 2 ^ 64 * (b / 2 ^ 64) * 2 ^ 128 +
      (a / 2 ^ 64 * (b % 2 ^ 64) + a % 2 ^ 64 * (b / 2 ^ 64)) * 2 ^ 64 +
      a % 2 ^ 64 * (b % 2 ^ 64) := by
    calc a * b = (2 ^ 64 * (a / 2 ^ 64) + a % 2 ^ 64) * (2 ^ 64 * (b / 2 ^ 64) + b % 2 ^ 64) := by
          rw [Nat.div_add_mod, Nat.div_add_mod]
      _ = _ := by ring
  rw [hsplit]
  omega

section

variable (ha : a ≤ 2 ^ 127) (hb : b ≤ 2 ^ 127)

include ha hb

theorem partials_le :
    a % 2 ^ 64 * (b % 2 ^ 64) ≤ (2 ^ 64 - 1) * (2 ^ 64 - 1) ∧
    a / 2 ^ 64 * (b % 2 ^ 64) ≤ 2 ^ 63 * (2 ^ 64 - 1) ∧
    a % 2 ^ 64 * (b / 2 ^ 64) ≤ (2 ^ 64 - 1) * 2 ^ 63 ∧
    a / 2 ^ 64 * (b / 2 ^ 64) ≤ 2 ^ 63 * 2 ^ 63 := by
  have hal : a % 2 ^ 64 ≤ 2 ^ 64 - 1 := by omega
  have hbl : b % 2 ^ 64 ≤ 2 ^ 64 - 1 := by omega
  have hah : a / 2 ^ 64 ≤ 2 ^ 63 := by omega
  have hbh : b / 2 ^ 64 ≤ 2 ^ 63 := by omega
  exact ⟨Nat.mul_le_mul hal hbl, Nat.mul_le_mul hah hbl, Nat.mul_le_mul hal hbh,
    Nat.mul_le_mul hah hbh⟩

theorem NoOverflow.of_lt (hfits : a * b / 2 ^ 64 < 2 ^ 128) : NoOverflow a b := by
  obtain ⟨hlow, hleft, hright, hhigh⟩ := partials_le ha hb
  rw [product_split] at hfits
  exact ⟨by omega, by omega, by omega, by omega, by omega, by omega, by omega, hfits⟩

theorem umul_eq :
    umul a b = if a / 2 ^ 64 * (b / 2 ^ 64) ≤ 2 ^ 63 ∧ a * b / 2 ^ 64 < 2 ^ 128 then
      .ok (a * b / 2 ^ 64) else .error .assertFailed := by
  obtain ⟨hlow, hleft, hright, hhigh⟩ := partials_le ha hb
  rw [product_split, umul, wmul_eq (by omega), wmul_eq (by omega), wmul_eq (by omega),
    wmul_eq (by omega)]
  generalize a % 2 ^ 64 * (b % 2 ^ 64) = low at hlow
  generalize a / 2 ^ 64 * (b % 2 ^ 64) = left at hleft
  generalize a % 2 ^ 64 * (b / 2 ^ 64) = right at hright
  generalize a / 2 ^ 64 * (b / 2 ^ 64) = high at hhigh
  dsimp only
  rw [wadd_eq (a := left) (by omega), wadd_eq (a := low / 2 ^ 64) (by omega)]
  by_cases hok : high ≤ 2 ^ 63
  · rw [nsAssert_of hok, ok_bind, wshl_eq (by omega)]
    by_cases hfits : low / 2 ^ 64 + (left + right) + high * 2 ^ 64 < 2 ^ 128
    · rw [wadd_eq hfits, nsAssert_of (Nat.le_add_right _ _), if_pos ⟨hok, hfits⟩]
      rfl
    · have hwrap : ¬low / 2 ^ 64 + (left + right) ≤
          wadd 128 (low / 2 ^ 64 + (left + right)) (high * 2 ^ 64) := by
        unfold wadd
        omega
      have hnot : ¬(high ≤ 2 ^ 63 ∧ low / 2 ^ 64 + (left + right) + high * 2 ^ 64 < 2 ^ 128) :=
        fun h => hfits h.2
      rw [if_neg hnot, nsAssert, decide_eq_false hwrap]
      rfl
  · have hnot : ¬(high ≤ 2 ^ 63 ∧ low / 2 ^ 64 + (left + right) + high * 2 ^ 64 < 2 ^ 128) :=
      fun h => hok h.1
    rw [if_neg hnot, nsAssert, decide_eq_false hok]
    rfl

end

def signedProduct (x y : Int64x64) : Int :=
  if (decide (x.v < 0) != decide (y.v < 0)) = true then
    -((x.v.natAbs * y.v.natAbs / 2 ^ 64 : Nat) : Int)
  else (x.v.natAbs * y.v.natAbs / 2 ^ 64 : Nat)

def Representable (n : Int) : Prop := -2 ^ 127 ≤ n ∧ n < 2 ^ 127

instance {n : Int} : Decidable (Representable n) := inferInstanceAs (Decidable (_ ∧ _))

theorem outputSign_eq (x y : Int64x64) : outputSign x.v y.v =
    (decide (x.v < 0) != decide (y.v < 0), x.v.natAbs, y.v.natAbs) := by
  rw [outputSign, magnitude_eq x.le_v x.v_lt, magnitude_eq y.le_v y.v_lt]

theorem ofWide_representable {n : Int} (h : Representable n) : (ofWide n).v = n :=
  ofWide_v h.1 h.2

theorem umul_representable (h : Representable (signedProduct x y)) :
    umul x.v.natAbs y.v.natAbs = .ok (x.v.natAbs * y.v.natAbs / 2 ^ 64) ∧
      x.v.natAbs * y.v.natAbs / 2 ^ 64 < 2 ^ 128 := by
  have hx := x.le_v
  have hx' := x.v_lt
  have hy := y.le_v
  have hy' := y.v_lt
  have hhigh := product_split x.v.natAbs y.v.natAbs
  have hproduct : x.v.natAbs * y.v.natAbs / 2 ^ 64 ≤ 2 ^ 127 := by
    unfold signedProduct Representable at h
    split at h
    · omega
    · omega
  rw [umul_eq (by omega) (by omega), if_pos (by omega)]
  exact ⟨rfl, by omega⟩

/-- The product, truncated, or an assertion where it does not fit. -/
theorem mul_eq (x y : Int64x64) :
    x.mul y = if Representable (signedProduct x y) then .ok (ofWide (signedProduct x y))
      else .error .assertFailed := by
  have hx := x.le_v
  have hx' := x.v_lt
  have hy := y.le_v
  have hy' := y.v_lt
  have hhigh := product_split x.v.natAbs y.v.natAbs
  rw [mul, outputSign_eq]
  dsimp only
  rw [umul_eq (by omega) (by omega)]
  unfold signedProduct Representable
  generalize x.v.natAbs * y.v.natAbs / 2 ^ 64 = p at hhigh
  generalize x.v.natAbs / 2 ^ 64 * (y.v.natAbs / 2 ^ 64) = high at hhigh
  cases decide (x.v < 0) != decide (y.v < 0) with
  | true =>
    simp only [↓reduceIte]
    by_cases hp : p ≤ 2 ^ 127
    · rw [if_pos (by omega), if_pos (by omega), ok_bind, nsAssert_of hp]
      rfl
    · rw [if_neg (show ¬(-2 ^ 127 ≤ -(p : Int) ∧ -(p : Int) < 2 ^ 127) by omega)]
      split
      · rw [ok_bind, nsAssert, decide_eq_false hp]
        rfl
      · rfl
  | false =>
    simp only [Bool.false_eq_true, ↓reduceIte]
    by_cases hp : p < 2 ^ 127
    · rw [if_pos (by omega), if_pos (by omega), ok_bind, nsAssert_of hp]
      rfl
    · rw [if_neg (show ¬(-2 ^ 127 ≤ (p : Int) ∧ (p : Int) < 2 ^ 127) by omega)]
      split
      · rw [ok_bind, nsAssert, decide_eq_false hp]
        rfl
      · rfl

theorem mul_int (x : Int64x64) (hlt : k < 2 ^ 63) :
    x.mul (ofInt k) =
      if -2 ^ 127 ≤ x.v * k ∧ x.v * k < 2 ^ 127 then .ok (ofWide (x.v * k))
      else .error .assertFailed := by
  have hk : (ofInt k).v = k * 2 ^ 64 := ofInt_v (by omega) (by exact_mod_cast hlt)
  have hproduct : signedProduct x (ofInt k) = x.v * k := by
    have hmagnitude : x.v.natAbs * (k * 2 ^ 64 : Int).natAbs / 2 ^ 64 = x.v.natAbs * k := by
      have habs : (k * 2 ^ 64 : Int).natAbs = k * 2 ^ 64 := by omega
      rw [habs, ← Nat.mul_assoc, Nat.mul_div_cancel _ (Nat.two_pow_pos 64)]
    have hnonneg : decide ((k : Int) * 2 ^ 64 < 0) = false := decide_eq_false (by omega)
    rw [signedProduct, hk, hmagnitude, hnonneg, Bool.bne_false]
    split
    · rename_i hneg
      rw [decide_eq_true_eq] at hneg
      rw [Nat.cast_mul, Int.ofNat_natAbs_of_nonpos (Int.le_of_lt hneg)]
      ring
    · rename_i hpos
      rw [decide_eq_true_eq] at hpos
      rw [Nat.cast_mul, Int.natAbs_of_nonneg (Int.not_lt.mp hpos)]
  rw [mul_eq, hproduct]
  rfl

/-! ## Division -/

section Udiv

variable {left shift den rem : Nat}

theorem skipDivisor_eq (left shift : Nat) (hden : 0 < den) :
    ∃ s ≤ left, (skipDivisor left shift den).1 = shift + s ∧
    (skipDivisor left shift den).2 * 2 ^ s = den ∧
    (s < left → (skipDivisor left shift den).2 % 2 = 1) := by
  induction left generalizing shift den with
  | zero => exact ⟨0, le_refl _, rfl, Nat.mul_one den, fun h => absurd h (Nat.lt_irrefl 0)⟩
  | succ left ih =>
    rw [skipDivisor]
    split
    · rename_i heven
      obtain ⟨s, hle, hshift, hden', hodd⟩ := ih (shift + 1) (show 0 < den / 2 by omega)
      refine ⟨s + 1, Nat.succ_le_succ hle, ?_, ?_, ?_⟩
      · rw [hshift]
        omega
      · rw [Nat.pow_succ, ← Nat.mul_assoc, hden']
        omega
      · intro hlt
        exact hodd (Nat.lt_of_succ_lt_succ hlt)
    · rename_i hodd
      refine ⟨0, Nat.zero_le _, rfl, Nat.mul_one den, fun _ => ?_⟩
      dsimp only
      omega

theorem mul_div_split (a b c : Nat) (hb : 0 < b) : a * c / b = a / b * c + a % b * c / b := by
  have hsplit : a * c = b * (a / b * c) + a % b * c := by
    calc a * c = (b * (a / b) + a % b) * c := by rw [Nat.div_add_mod]
      _ = b * (a / b * c) + a % b * c := by ring
  rw [hsplit, Nat.mul_add_div hb]

theorem skipRemainder_eq (left shift : Nat) (hrem : rem < 2 ^ 128) : ∃ t ≤ left,
    skipRemainder left shift rem = (shift + t, rem * 2 ^ t) ∧ rem * 2 ^ t < 2 ^ 128 ∧
      (t = left ∨ 2 ^ 127 ≤ rem * 2 ^ t) := by
  induction left generalizing shift rem with
  | zero =>
    refine ⟨0, le_refl _, ?_, ?_, .inl rfl⟩
    · rw [skipRemainder, Nat.pow_zero, Nat.mul_one, Nat.add_zero]
    · rwa [Nat.pow_zero, Nat.mul_one]
  | succ left ih =>
    rw [skipRemainder]
    split
    · rename_i hclear
      have hdouble : wshl 128 rem 1 = rem * 2 := wshl_eq (by omega)
      rw [hdouble]
      obtain ⟨t, hle, heq, hlt, hstop⟩ := ih (shift + 1) (show rem * 2 < 2 ^ 128 by omega)
      have hpow : rem * 2 * 2 ^ t = rem * 2 ^ (t + 1) := by
        rw [Nat.mul_assoc, ← Nat.pow_succ']
      rw [hpow] at heq hlt hstop
      refine ⟨t + 1, Nat.succ_le_succ hle, ?_, hlt, hstop.imp_left (congrArg Nat.succ)⟩
      rw [heq, Nat.add_right_comm, Nat.add_assoc]
    · rename_i hset
      refine ⟨0, Nat.zero_le _, ?_, ?_, .inr ?_⟩
      · rw [Nat.pow_zero, Nat.mul_one, Nat.add_zero]
      · rwa [Nat.pow_zero, Nat.mul_one]
      · rw [Nat.pow_zero, Nat.mul_one]
        omega

theorem castOff_eq (left shift : Nat) (hle : left = 0 ∨ den ≤ rem) : ∃ u ≤ left,
    ∃ den', castOff rem left shift den = (shift + u, den') ∧ den' * 2 ^ u = den := by
  induction left generalizing shift den with
  | zero => exact ⟨0, le_refl _, den, rfl, Nat.mul_one den⟩
  | succ left ih =>
    have hle := hle.resolve_left (Nat.succ_ne_zero left)
    rw [castOff]
    split
    · rename_i hcast
      have heven := hcast.resolve_right (Nat.not_lt.mpr hle)
      obtain ⟨u, hu, den', heq, hden⟩ :=
        ih (shift + 1) (.inr ((Nat.div_le_self den 2).trans hle))
      refine ⟨u + 1, Nat.succ_le_succ hu, den', ?_, ?_⟩
      · rw [heq, Nat.add_right_comm, Nat.add_assoc]
      · rw [Nat.pow_succ, ← Nat.mul_assoc, hden]
        omega
    · exact ⟨0, Nat.zero_le _, den, rfl, Nat.mul_one den⟩

/-- The quotient to `digis` digits is `result`, and what is left of the fraction is
`rem / (den * 2 ^ shift)`. -/
structure LongDivision (a b result digis rem den shift : Nat) : Prop where
  den_pos : 0 < den
  den_le : den * 2 ^ shift ≤ 2 ^ 127
  rem_lt : rem < den * 2 ^ shift
  digits_le : digis + shift ≤ DIGITS
  exact : a * 2 ^ digis * (den * 2 ^ shift) = (result * (den * 2 ^ shift) + rem) * b

variable {result digis : Nat}

theorem LongDivision.round (h : LongDivision a b result digis rem den shift)
    (hmore : digis < DIGITS) :
    ∃ shift' rem' shift'' den',
      skipRemainder (DIGITS - (digis + shift)) shift rem = (shift', rem') ∧
      castOff rem' (DIGITS - (digis + shift')) shift' den = (shift'', den') ∧ 0 < den' ∧
      0 < shift'' ∧
      LongDivision a b (result * 2 ^ shift'' + rem' / den') (digis + shift'') (rem' % den')
        den' 0 := by
  have hrem : rem < 2 ^ 128 := by
    have hlt := h.rem_lt
    have hle := h.den_le
    omega
  obtain ⟨t, ht, hskip, _, hstop⟩ := skipRemainder_eq (DIGITS - (digis + shift)) shift hrem
  have hden : den ≤ den * 2 ^ shift := Nat.le_mul_of_pos_right _ (Nat.two_pow_pos shift)
  have hdigits := h.digits_le
  have hbig : DIGITS - (digis + (shift + t)) = 0 ∨ den ≤ rem * 2 ^ t := by
    rcases hstop with rfl | hset
    · exact .inl (by omega)
    · exact .inr (hden.trans (h.den_le.trans hset))
  obtain ⟨u, hu, den', hcast, hden'⟩ := castOff_eq _ (shift + t) hbig
  have hpos : 0 < den' := by
    apply Nat.pos_of_ne_zero
    rintro rfl
    rw [Nat.zero_mul] at hden'
    exact absurd h.den_pos (by omega)
  have hshift : 0 < shift + t + u := by
    by_contra hzero
    obtain ⟨rfl, rfl⟩ : shift = 0 ∧ t = 0 := by omega
    rcases hstop with hnone | hset
    · omega
    · have hlt := h.rem_lt
      have hle := h.den_le
      omega
  refine ⟨shift + t, rem * 2 ^ t, shift + t + u, den', hskip, hcast, hpos, hshift, hpos, ?_, ?_,
    by omega, ?_⟩
  · have hle : den' ≤ den := by
      rw [← hden']
      exact Nat.le_mul_of_pos_right _ (Nat.two_pow_pos u)
    rw [Nat.pow_zero, Nat.mul_one]
    exact hle.trans (hden.trans h.den_le)
  · rw [Nat.pow_zero, Nat.mul_one]
    exact Nat.mod_lt _ hpos
  · have hexact := h.exact
    rw [← hden'] at hexact
    have hdivision : rem * 2 ^ t / den' * den' + rem * 2 ^ t % den' = rem * 2 ^ t := by
      rw [Nat.mul_comm, Nat.div_add_mod]
    calc a * 2 ^ (digis + (shift + t + u)) * (den' * 2 ^ 0)
        = a * 2 ^ digis * (den' * 2 ^ u * 2 ^ shift) * 2 ^ t := by ring
      _ = (result * (den' * 2 ^ u * 2 ^ shift) + rem) * b * 2 ^ t := by rw [hexact]
      _ = (result * 2 ^ (shift + t + u) * den' + rem * 2 ^ t) * b := by ring
      _ = (result * 2 ^ (shift + t + u) * den' +
            (rem * 2 ^ t / den' * den' + rem * 2 ^ t % den')) * b := by rw [hdivision]
      _ = ((result * 2 ^ (shift + t + u) + rem * 2 ^ t / den') * (den' * 2 ^ 0) +
            rem * 2 ^ t % den') * b := by ring

theorem LongDivision.all (h : LongDivision a b result DIGITS rem den 0) (hb : 0 < b) :
    a * 2 ^ DIGITS / b = result := by
  have hexact := h.exact
  have hlt := h.rem_lt
  have hpos := h.den_pos
  rw [Nat.pow_zero, Nat.mul_one] at hexact hlt
  have hlow : result * b * den ≤ a * 2 ^ DIGITS * den := by
    calc result * b * den = result * den * b := by ring
      _ ≤ (result * den + rem) * b := Nat.mul_le_mul_right b (Nat.le_add_right _ _)
      _ = a * 2 ^ DIGITS * den := hexact.symm
  have hhigh : a * 2 ^ DIGITS * den < (result + 1) * b * den := by
    calc a * 2 ^ DIGITS * den = (result * den + rem) * b := hexact
      _ < (result * den + den) * b := Nat.mul_lt_mul_of_pos_right (Nat.add_lt_add_left hlt _) hb
      _ = (result + 1) * b * den := by ring
  apply Nat.div_eq_of_lt_le
  · exact Nat.le_of_mul_le_mul_right hlow hpos
  · exact Nat.lt_of_mul_lt_mul_right hhigh

theorem LongDivision.exhausted (h : LongDivision a b result digis 0 den shift) (hb : 0 < b) :
    a * 2 ^ DIGITS / b = result * 2 ^ (DIGITS - digis) := by
  have hdigits := h.digits_le
  have hpos : 0 < den * 2 ^ shift := Nat.mul_pos h.den_pos (Nat.two_pow_pos shift)
  have hexact : a * 2 ^ digis = result * b := by
    apply Nat.eq_of_mul_eq_mul_right hpos
    calc a * 2 ^ digis * (den * 2 ^ shift) = (result * (den * 2 ^ shift) + 0) * b := h.exact
      _ = result * b * (den * 2 ^ shift) := by ring
  have hpow : 2 ^ DIGITS = 2 ^ digis * 2 ^ (DIGITS - digis) := by
    rw [← Nat.pow_add, Nat.add_sub_cancel' ((Nat.le_add_right _ _).trans hdigits)]
  rw [hpow, ← Nat.mul_assoc, hexact, Nat.mul_right_comm, Nat.mul_div_cancel _ hb]

theorem udivLoop_eq {fuel : Nat}
    (h : LongDivision a b result digis rem den shift) (hb : 0 < b) (hfuel : DIGITS < fuel + digis) :
    ∃ result' digis', udivLoop fuel rem den (result % 2 ^ 128) digis shift =
      .ok (result' % 2 ^ 128, digis') ∧ digis' ≤ DIGITS ∧
      a * 2 ^ DIGITS / b = result' * 2 ^ (DIGITS - digis') := by
  have hdigits := h.digits_le
  induction fuel generalizing result digis rem den shift with
  | zero => omega
  | succ fuel ih =>
    rw [udivLoop]
    split
    · rename_i hmore
      obtain ⟨shift', rem', shift'', den', hskip, hcast, hden, hshift, hnext⟩ := h.round hmore.1
      have hresult : wadd 128 (wshl 128 (result % 2 ^ 128) shift'') (rem' / den') =
          (result * 2 ^ shift'' + rem' / den') % 2 ^ 128 := by
        rw [wadd, wshl, Nat.mod_mul_mod, Nat.mod_add_mod]
      rw [hskip]
      dsimp only
      rw [hcast]
      dsimp only
      rw [divMod, if_neg (Nat.ne_of_gt hden), ok_bind, hresult]
      exact ih hnext (by omega) hnext.digits_le
    · rename_i hstop
      refine ⟨result, digis, rfl, by omega, ?_⟩
      by_cases hall : digis < DIGITS
      · have hrem : rem = 0 := by
          by_contra hne
          exact hstop ⟨hall, hne⟩
        subst hrem
        exact h.exhausted hb
      · obtain ⟨rfl, rfl⟩ : digis = DIGITS ∧ shift = 0 := by omega
        rw [h.all hb, Nat.sub_self, Nat.pow_zero, Nat.mul_one]

theorem udiv_eq (ha : a < 2 ^ 128) (hb : 0 < b) (hle : b ≤ 2 ^ 127) :
    udiv a b = .ok (a * 2 ^ 64 / b % 2 ^ 128) := by
  obtain ⟨s, hs, hshift, hden, _⟩ := skipDivisor_eq DIGITS 0 hb
  rw [Nat.zero_add] at hshift
  have hskip : skipDivisor DIGITS 0 b = (s, (skipDivisor DIGITS 0 b).2) := Prod.ext hshift rfl
  generalize (skipDivisor DIGITS 0 b).2 = den at hden hskip
  have hrem : a % b < b := Nat.mod_lt a hb
  have hstart : LongDivision a b (a / b) 0 (a % b) den s := by
    refine ⟨?_, hden.trans_le hle, hden ▸ hrem, by omega, ?_⟩
    · apply Nat.pos_of_ne_zero
      rintro rfl
      omega
    · rw [hden, Nat.pow_zero, Nat.mul_one, Nat.mul_comm (a / b), Nat.div_add_mod]
  have hquo : a / b = a / b % 2 ^ 128 :=
    (Nat.mod_eq_of_lt ((Nat.div_le_self a b).trans_lt ha)).symm
  obtain ⟨result, digis, hloop, hdigits, hresult⟩ :=
    udivLoop_eq hstart hb (show DIGITS < DIGITS + 1 + 0 by omega)
  have hgoal : a * 2 ^ 64 / b = result * 2 ^ (DIGITS - digis) := hresult
  rw [udiv, divMod, if_neg (Nat.ne_of_gt hb), ok_bind]
  simp only [nsAssert_of hrem, ok_bind, hskip]
  rw [hquo, hloop, ok_bind, hgoal]
  dsimp only
  split
  · rw [wshl, Nat.mod_mul_mod]
    rfl
  · rename_i hall
    have heq : digis = DIGITS := Nat.le_antisymm hdigits (Nat.le_of_not_lt hall)
    rw [heq, Nat.sub_self, Nat.pow_zero, Nat.mul_one]
    rfl

end Udiv

theorem neg_ofWide (n : Int) : (ofWide n).neg = ofWide (-n) := by
  apply ext
  unfold neg ofWide
  dsimp only
  rw [Int.bmod_neg_bmod]

/-- The quotient of the magnitudes to 64 binary places, with the sign of the quotient. -/
def signedQuotient (x y : Int64x64) : Int :=
  if (decide (x.v < 0) != decide (y.v < 0)) = true then
    -((x.v.natAbs * 2 ^ 64 / y.v.natAbs : Nat) : Int)
  else (x.v.natAbs * 2 ^ 64 / y.v.natAbs : Nat)

theorem udiv_representable (hy : y.v ≠ 0) (h : Representable (signedQuotient x y)) :
    udiv x.v.natAbs y.v.natAbs = .ok (x.v.natAbs * 2 ^ 64 / y.v.natAbs) ∧
      x.v.natAbs * 2 ^ 64 / y.v.natAbs < 2 ^ 128 := by
  have hx := x.le_v
  have hx' := x.v_lt
  have hyle := y.le_v
  have hylt := y.v_lt
  have hquotient : x.v.natAbs * 2 ^ 64 / y.v.natAbs ≤ 2 ^ 127 := by
    unfold signedQuotient Representable at h
    split at h
    · omega
    · omega
  rw [udiv_eq (by omega) (Int.natAbs_pos.mpr hy) (by omega), Nat.mod_eq_of_lt (by omega)]
  exact ⟨rfl, by omega⟩

theorem div_eq (hy : y.v ≠ 0) (h : Representable (signedQuotient x y)) :
    x.div y = .ok (ofWide (signedQuotient x y)) := by
  rw [div, outputSign_eq]
  dsimp only
  rw [(udiv_representable hy h).1, ok_bind, signedQuotient]
  split
  · rw [neg_ofWide]
    rfl
  · rfl

theorem div_int (hx : 0 ≤ x.v) (hk : 0 < k) (hlt : k < 2 ^ 63) :
    x.div (ofInt k) = .ok (ofWide (x.v / k)) := by
  have hx' := x.v_lt
  have hv : (ofInt k).v = k * 2 ^ 64 := ofInt_v (by omega) (by exact_mod_cast hlt)
  have hmagnitude : magnitude (k * 2 ^ 64 : Int) = k * 2 ^ 64 := by
    rw [magnitude_eq (by omega) (by omega)]
    omega
  have hnonneg : decide ((k : Int) * 2 ^ 64 < 0) = false := decide_eq_false (by omega)
  have hself : k * 2 ^ 64 / 2 ^ 64 = k := Nat.mul_div_cancel k (Nat.two_pow_pos 64)
  have hquotient : x.v.natAbs * 2 ^ 64 / (k * 2 ^ 64) = x.v.natAbs / k :=
    Nat.mul_div_mul_right _ _ (Nat.two_pow_pos 64)
  have hle : x.v.natAbs / k ≤ x.v.natAbs := Nat.div_le_self _ _
  have hcast : ((x.v.natAbs / k : Nat) : Int) = x.v / k := by
    rw [Int.natCast_div, Int.natAbs_of_nonneg hx]
  rw [div, outputSign, hv, hmagnitude, hnonneg, magnitude_eq x.le_v hx',
    decide_eq_false (Int.not_lt.mpr hx)]
  simp only [bne_self_eq_false, Bool.false_eq_true, ↓reduceIte]
  rw [udiv_eq (by omega) (Nat.mul_pos hk (Nat.two_pow_pos 64)) (by omega), hquotient,
    Nat.mod_eq_of_lt (by omega), ok_bind, hcast]
  rfl

/-! ## Multiplication by an inverse -/

theorem umulByInvert_int (hk : k ≤ 2 ^ 63) (hb : b ≤ 2 ^ 127) :
    umulByInvert (k * 2 ^ 64) b = .ok (k * b / 2 ^ 64) := by
  have hlow : k * (b % 2 ^ 64) ≤ 2 ^ 63 * 2 ^ 64 := by
    apply Nat.mul_le_mul hk
    omega
  have hhigh : k * (b / 2 ^ 64) ≤ 2 ^ 63 * 2 ^ 63 := by
    apply Nat.mul_le_mul hk
    omega
  have hsplit : k * b / 2 ^ 64 = k * (b / 2 ^ 64) + k * (b % 2 ^ 64) / 2 ^ 64 := by
    rw [Nat.mul_comm k b, mul_div_split b (2 ^ 64) k (Nat.two_pow_pos 64), Nat.mul_comm k,
      Nat.mul_comm k]
  rw [umulByInvert, nsAssert_of hb, ok_bind, Nat.mul_mod_left,
    Nat.mul_div_cancel k (Nat.two_pow_pos 64)]
  dsimp only
  rw [wmul_eq (a := 0) (by omega), Nat.zero_mul, wmul_eq (a := k) (by omega),
    wmul_eq (a := k) (by omega), wadd_eq (b := 0) (by omega), Nat.add_zero, wadd_eq (by omega),
    hsplit]
  rfl

/-- The sign of `x`, put on an absolute value. -/
def withSign (x : Int64x64) (n : Nat) : Int := if x.v < 0 then -(n : Int) else n

theorem mulByInvert_int {o : Int64x64} {n : Int} (hx : x.v = n * 2 ^ 64) (ho : o.v = b)
    (hfits : n.natAbs * b / 2 ^ 64 < 2 ^ 127) :
    ∃ y, x.mulByInvert o = .ok y ∧ y.v = withSign x (n.natAbs * b / 2 ^ 64) := by
  have hle := x.le_v
  have hlt := x.v_lt
  have hb := o.v_lt
  have hmagnitude : magnitude x.v = n.natAbs * 2 ^ 64 := by
    rw [magnitude_eq hle hlt]
    omega
  have hinverse : toUnsigned o.v = b := by
    rw [toUnsigned_eq (by omega) hb]
    omega
  refine ⟨ofWide (withSign x (n.natAbs * b / 2 ^ 64)), ?_, ?_⟩
  · rw [mulByInvert, hmagnitude, hinverse, umulByInvert_int (by omega) (by omega), ok_bind]
    simp only [decide_eq_true_eq]
    rfl
  · apply ofWide_v
    · rw [withSign]
      split
      · omega
      · omega
    · rw [withSign]
      split
      · omega
      · omega

theorem invert_eq {f : Nat} (hf : 2 < f) (hlt : f < 2 ^ 63) :
    ∃ inverse b, invert f = .ok inverse ∧ inverse.v = (b : Nat) ∧
      Reciprocal (2 ^ 64 * 2 ^ 64) f b := by
  have hquotient : 2 ^ 64 * 2 ^ 64 / f ≤ 2 ^ 64 * 2 ^ 64 / 3 := Nat.div_le_div_left hf (by decide)
  have hsmall : 2 ^ 64 * 2 ^ 64 / f + 1 < 2 ^ 127 := by
    apply Nat.lt_of_le_of_lt (Nat.add_le_add_right hquotient 1)
    decide
  generalize hb0 : 2 ^ 64 * 2 ^ 64 / f = b0 at hquotient hsmall
  have hudiv : udiv (2 ^ 64) f = .ok b0 := by
    rw [udiv_eq (by omega) (by omega) (by omega), hb0, Nat.mod_eq_of_lt (by omega)]
  have hresult : (ofWide b0).v = b0 := ofWide_v (by omega) (by omega)
  have hwords : (ofWords (toInt64 f) 0).v = f * 2 ^ 64 := by
    rw [toInt64_eq (by omega) (by omega), ofWords, ofWide_v (by omega) (by omega)]
    omega
  have hle : f * b0 ≤ 2 ^ 64 * 2 ^ 64 := by
    rw [← hb0]
    exact Nat.mul_div_le _ f
  have hnatAbs : (f : Int).natAbs = f := Int.natAbs_natCast f
  obtain ⟨tmp, htmp, htmpv⟩ := mulByInvert_int hwords hresult (by rw [hnatAbs]; omega)
  have hnonneg : ¬(ofWords (toInt64 f) 0).v < 0 := by
    rw [hwords]
    omega
  rw [withSign, if_neg hnonneg, hnatAbs] at htmpv
  have hhigh := getHigh_of htmpv
  have hshift : wshl 128 1 64 = 2 ^ 64 := by decide
  have hone : 1 < f := by omega
  have hinvert :
      invert f = .ok (if tmp.getHigh ≠ 1 then ofWide ((ofWide b0).v + 1) else ofWide b0) := by
    rw [invert, nsAssert_of hone, ok_bind]
    dsimp only
    rw [hshift, hudiv, ok_bind, htmp, ok_bind]
    rfl
  have hrecip := Reciprocal.of_div (m := 2 ^ 64 * 2 ^ 64) (f := f) (by omega)
  rw [hb0] at hrecip
  by_cases hdvd : f ∣ 2 ^ 64 * 2 ^ 64
  · have hexact : f * b0 = 2 ^ 64 * 2 ^ 64 := by
      rw [← hb0]
      exact Nat.mul_div_cancel' hdvd
    have hhigh1 : tmp.getHigh = 1 := by
      rw [hhigh, hexact]
      rfl
    rw [if_neg (not_not.mpr hhigh1)] at hinvert
    rw [if_pos hdvd] at hrecip
    exact ⟨_, b0, hinvert, hresult, hrecip⟩
  · have hstrict : f * b0 < 2 ^ 64 * 2 ^ 64 := by
      apply Nat.lt_of_le_of_ne hle
      intro heq
      exact hdvd ⟨b0, heq.symm⟩
    have hhigh1 : tmp.getHigh ≠ 1 := by
      rw [hhigh]
      omega
    rw [if_pos hhigh1, hresult] at hinvert
    rw [if_neg hdvd] at hrecip
    refine ⟨_, b0 + 1, hinvert, ?_, hrecip⟩
    rw [ofWide_v (by omega) (by omega)]
    rfl

/-! ## Rounding -/

theorem round_of {m : Nat} {e : Int} (hm : m < 2 ^ 63) (hv : (x.v.natAbs : Int) = m * 2 ^ 64 + e)
    (hle : -2 ^ 63 ≤ e) (hlt : e < 2 ^ 63) : x.round = withSign x m := by
  have hx := x.le_v
  have hx' := x.v_lt
  have hhalf : (ofWords 0 (2 ^ 63)).v = 2 ^ 63 := rfl
  have hhigh : ∀ y : Int64x64, y.v = x.v.natAbs → (y.add (ofWords 0 (2 ^ 63))).getHigh = m := by
    intro y hy
    rw [getHigh, add_v hy hhalf (by omega) (by omega)]
    omega
  rw [round, withSign]
  by_cases hneg : x.v < 0
  · have habs : x.neg.v = x.v.natAbs := by
      rw [neg, ofWide_v (by omega) (by omega)]
      omega
    rw [decide_eq_true hneg, if_pos hneg]
    simp only [↓reduceIte]
    rw [hhigh _ habs, toInt64_eq (by omega) (by omega)]
  · have habs : x.v = x.v.natAbs := by omega
    rw [decide_eq_false hneg, if_neg hneg]
    simp only [Bool.false_eq_true, ↓reduceIte]
    rw [hhigh _ habs]

theorem round_min {s : Int} (hv : x.v = -2 ^ 127 + s) (hle : 0 ≤ s) (hlt : s ≤ 2 ^ 63) :
    x.round = -2 ^ 63 := by
  have hneg : x.v < 0 := by omega
  have hhalf : (ofWords 0 (2 ^ 63)).v = 2 ^ 63 := rfl
  have hsum : (x.neg.add (ofWords 0 (2 ^ 63))).v = -2 ^ 127 + (2 ^ 63 - s) := by
    have hwrap :
        (x.neg.add (ofWords 0 (2 ^ 63))).v = ((-x.v).bmod (2 ^ 128) + 2 ^ 63).bmod (2 ^ 128) := by
      rw [add, hhalf]
      rfl
    rw [hwrap, Int.bmod_add_bmod, hv]
    have hshift :
        -(-2 ^ 127 + s) + 2 ^ 63 = (-2 ^ 127 + (2 ^ 63 - s)) + 1 * ((2 ^ 128 : Nat) : Int) := by
      push_cast
      ring
    rw [hshift, Int.add_mul_bmod_self_right]
    apply Int.bmod_eq_of_le_mul_two
    · push_cast
      omega
    · push_cast
      omega
  have hhigh : (x.neg.add (ofWords 0 (2 ^ 63))).getHigh = -2 ^ 63 := by
    rw [getHigh, hsum]
    omega
  rw [round, decide_eq_true hneg]
  simp only [↓reduceIte]
  rw [hhigh]
  decide

end Ns3.Int64x64
