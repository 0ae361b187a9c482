/-
  Fixed-point multiplication and division on two-word integers
  (src/core/model/int64x64-cairo.cc), for the platforms without native 128-bit ones.

  Each function is the native one on the numbers that the words stand for.
-/
import Ns3.Core.CairoWideint
import Ns3.Core.Int64x64Exact
import Mathlib.Data.Nat.Bitwise

namespace Ns3.Cairo

open Ns3.Lib Uint128

/-! ## The functions -/

def outputSign (sa sb : Uint128) : Bool × Uint128 × Uint128 :=
  let negA := sa.negative
  let negB := sb.negative
  let ua := if negA then sa.negate else sa
  let ub := if negB then sb.negate else sb
  ((negA && !negB) || (!negA && negB), ua, ub)

def umul (a b : Uint128) : Except Fault Uint128 :=
  let loPart := uint64x64Mul a.lo b.lo
  let midPart := (uint64x64Mul a.lo b.hi).add (uint64x64Mul a.hi b.lo)
  let hiPart := uint64x64Mul a.hi b.hi
  if hiPart.hi ≠ 0#64 then .error .aborted
  else
    let result := (ofUint64 loPart.hi).add (ofUint64 midPart.lo)
    let res1 := ((ofUint64 midPart.hi).add (ofUint64 hiPart.lo)).lsl 64
    .ok (result.add res1)

def mul (v o : Uint128) : Except Fault Uint128 := do
  let (sign, a, b) := outputSign v o
  let result ← umul a b
  pure (if sign then result.negate else result)

def skipDivisor : (left : Nat) → (shift : Nat) → (den : Uint128) → Nat × Uint128
  | 0, shift, den => (shift, den)
  | left + 1, shift, den =>
    if den.lo &&& 1#64 = 0#64 then skipDivisor left (shift + 1) (den.rsl 1) else (shift, den)

/-- "Skip leading zeros in remainder". -/
def skipRemainder : (left : Nat) → (shift : Nat) → (rem : Uint128) → Nat × Uint128
  | 0, shift, rem => (shift, rem)
  | left + 1, shift, rem =>
    -- the mask is `HPCAIRO_MASK_HI_BIT`
    if rem.hi &&& (1#64 <<< 63) = 0#64 then skipRemainder left (shift + 1) (rem.lsl 1)
    else (shift, rem)

/-- "Cast off denominator bits". -/
def castOff (rem : Uint128) : (left : Nat) → (shift : Nat) → (den : Uint128) → Nat × Uint128
  | 0, shift, den => (shift, den)
  | left + 1, shift, den =>
    if den.lo &&& 1#64 = 0#64 ∨ rem.lt den = true then castOff rem left (shift + 1) (den.rsl 1)
    else (shift, den)

def udivLoop : (fuel : Nat) → (rem den result : Uint128) → (digis shift : Nat) →
    Except Fault (Uint128 × Nat)
  | 0, _, _, _, _, _ => .error .noProgress
  | fuel + 1, rem, den, result, digis, shift =>
    if digis < Int64x64.DIGITS ∧ rem.eq (ofUint32 0#32) = false then do
      let (shift, rem) := skipRemainder (Int64x64.DIGITS - (digis + shift)) shift rem
      let (shift, den) := castOff rem (Int64x64.DIGITS - (digis + shift)) shift den
      let (quo, rem) ← divrem rem den
      udivLoop fuel rem den ((result.lsl shift).add quo) (digis + shift) 0
    else .ok (result, digis)

def udiv (a b : Uint128) : Except Fault Uint128 := do
  let (quo, rem) ← divrem a b
  nsAssert (rem.lt b)
  let (shift, den) := skipDivisor Int64x64.DIGITS 0 b
  let (result, digis) ← udivLoop (Int64x64.DIGITS + 1) rem den quo 0 shift
  -- "Did we run out of remainder?"
  pure (if digis < Int64x64.DIGITS then result.lsl (Int64x64.DIGITS - digis) else result)

def div (v o : Uint128) : Except Fault Uint128 := do
  let (sign, a, b) := outputSign v o
  let result ← udiv a b
  pure (if sign then result.negate else result)

/-! ## The words of a fixed-point number -/

def bits (x : Int64x64) : Uint128 := ofNat (Int64x64.toUnsigned x.v)

theorem toUnsigned_lt (n : Int) : Int64x64.toUnsigned n < 2 ^ 128 := by
  unfold Int64x64.toUnsigned
  omega

theorem toNat_bits (x : Int64x64) : (bits x).toNat = Int64x64.toUnsigned x.v :=
  toNat_ofNat (toUnsigned_lt x.v)

theorem bits_negative (x : Int64x64) : (bits x).negative = decide (x.v < 0) := by
  have hle := x.le_v
  have hlt := x.v_lt
  rw [Bool.eq_iff_iff, negative_iff, toNat_bits, decide_eq_true_eq, Int64x64.toUnsigned]
  omega

theorem toNat_magnitude (x : Int64x64) :
    (if decide (x.v < 0) = true then (bits x).negate else bits x).toNat = x.v.natAbs := by
  have hle := x.le_v
  have hlt := x.v_lt
  by_cases hneg : x.v < 0
  · rw [decide_eq_true hneg, if_pos rfl, toNat_negate, toNat_bits, Int64x64.toUnsigned]
    omega
  · rw [decide_eq_false hneg, if_neg Bool.false_ne_true, toNat_bits, Int64x64.toUnsigned]
    omega

theorem outputSign_eq (x y : Int64x64) : outputSign (bits x) (bits y) =
    (decide (x.v < 0) != decide (y.v < 0), ofNat x.v.natAbs, ofNat y.v.natAbs) := by
  have hx := toNat_magnitude x
  have hy := toNat_magnitude y
  rw [outputSign, bits_negative, bits_negative]
  rw [← hx, ofNat_toNat, ← hy, ofNat_toNat]
  congr 1
  cases decide (x.v < 0) <;> cases decide (y.v < 0) <;> rfl

theorem toUnsigned_ofWide (n : Int) :
    Int64x64.toUnsigned (Int64x64.ofWide n).v = (n % 2 ^ 128).toNat := by
  have hmod : n.bmod (2 ^ 128) % 2 ^ 128 = n % 2 ^ 128 := Int.bmod_emod
  rw [Int64x64.toUnsigned]
  exact congrArg Int.toNat hmod

theorem signed_bits {n : Nat} (hn : n < 2 ^ 128) (negative : Bool) :
    (if negative = true then (ofNat n).negate else ofNat n) =
      bits (Int64x64.ofWide (if negative = true then -(n : Int) else n)) := by
  apply toNat_inj.mp
  rw [toNat_bits, toUnsigned_ofWide]
  cases negative with
  | true =>
    rw [if_pos rfl, if_pos rfl, toNat_negate, toNat_ofNat hn]
    omega
  | false =>
    rw [if_neg Bool.false_ne_true, if_neg Bool.false_ne_true, toNat_ofNat hn]
    omega

/-! ## Multiplication -/

variable {a b : Uint128}

theorem umul_of_native {n : Nat} (h : Int64x64.umul a.toNat b.toNat = .ok n) :
    ∃ c, umul a b = .ok c ∧ c.toNat = n := by
  have hlow := (uint64x64Mul a.lo b.lo).toNat_lt
  have hleft := (uint64x64Mul a.hi b.lo).toNat_lt
  have hright := (uint64x64Mul a.lo b.hi).toNat_lt
  have hhigh := (uint64x64Mul a.hi b.hi).toNat_lt
  rw [Int64x64.umul, ← toNat_lo, ← toNat_lo, ← toNat_hi, ← toNat_hi] at h
  simp only [Int64x64.wmul, ← toNat_uint64x64Mul, Nat.mod_eq_of_lt hlow, Nat.mod_eq_of_lt hleft,
    Nat.mod_eq_of_lt hright, Nat.mod_eq_of_lt hhigh, bind_eq_ok, nsAssert_eq_ok, pure_eq_ok,
    decide_eq_true_eq, Int64x64.wshl, wadd] at h
  obtain ⟨_, hsmall, _, _, hn⟩ := h
  have hzero : ¬(uint64x64Mul a.hi b.hi).hi ≠ 0#64 := by
    rw [not_not, ← BitVec.toNat_inj, toNat_hi, BitVec.toNat_ofNat]
    omega
  rw [umul]
  dsimp only
  rw [if_neg hzero]
  refine ⟨_, rfl, ?_⟩
  rw [toNat_add, toNat_add, toNat_lsl (by omega), toNat_add]
  simp only [toNat_ofUint64, toNat_lo, toNat_hi, toNat_add]
  rw [← hn]
  generalize (uint64x64Mul a.lo b.lo).toNat = low at hlow
  generalize (uint64x64Mul a.hi b.lo).toNat = left at hleft
  generalize (uint64x64Mul a.lo b.hi).toNat = right at hright
  generalize (uint64x64Mul a.hi b.hi).toNat = high at hsmall hhigh
  omega

/-! ## Division -/

theorem even_iff (a : Uint128) : a.lo &&& 1#64 = 0#64 ↔ a.toNat % 2 = 0 := by
  rw [← BitVec.toNat_inj, BitVec.toNat_and, toNat_lo, BitVec.toNat_ofNat, BitVec.toNat_ofNat,
    Nat.one_mod_eq_one.mpr (by decide), Nat.and_one_is_mod]
  omega

theorem clear_iff (a : Uint128) : a.hi &&& (1#64 <<< 63) = 0#64 ↔ a.toNat / 2 ^ 127 % 2 = 0 := by
  have hmask : (1#64 <<< 63).toNat = 2 ^ 63 := by decide
  have hlo := a.lo.isLt
  have hbit : a.toNat / 2 ^ 127 = a.hi.toNat / 2 ^ 63 := by
    unfold Uint128.toNat
    omega
  rw [← BitVec.toNat_inj, BitVec.toNat_and, hmask, Nat.and_two_pow, hbit,
    Nat.testBit_eq_decide_div_mod_eq, BitVec.toNat_ofNat]
  rcases Nat.mod_two_eq_zero_or_one (a.hi.toNat / 2 ^ 63) with hzero | hone
  · simp
  · simp

theorem skipDivisor_eq (left shift : Nat) (den : Uint128) :
    Int64x64.skipDivisor left shift den.toNat =
      ((skipDivisor left shift den).1, (skipDivisor left shift den).2.toNat) := by
  induction left generalizing shift den with
  | zero => rfl
  | succ left ih =>
    rw [Int64x64.skipDivisor, skipDivisor]
    by_cases heven : den.toNat % 2 = 0
    · rw [if_pos heven, if_pos ((even_iff den).mpr heven), ← toNat_rsl_one, ih]
    · rw [if_neg heven, if_neg (mt (even_iff den).mp heven)]

theorem skipRemainder_eq (left shift : Nat) (rem : Uint128) :
    Int64x64.skipRemainder left shift rem.toNat =
      ((skipRemainder left shift rem).1, (skipRemainder left shift rem).2.toNat) := by
  induction left generalizing shift rem with
  | zero => rfl
  | succ left ih =>
    rw [Int64x64.skipRemainder, skipRemainder]
    by_cases hclear : rem.toNat / 2 ^ 127 % 2 = 0
    · have hshift : Int64x64.wshl 128 rem.toNat 1 = (rem.lsl 1).toNat :=
        (toNat_lsl (by omega)).symm
      rw [if_pos hclear, if_pos ((clear_iff rem).mpr hclear), hshift, ih]
    · rw [if_neg hclear, if_neg (mt (clear_iff rem).mp hclear)]

theorem castOff_eq (left shift : Nat) (rem den : Uint128) :
    Int64x64.castOff rem.toNat left shift den.toNat =
      ((castOff rem left shift den).1, (castOff rem left shift den).2.toNat) := by
  induction left generalizing shift den with
  | zero => rfl
  | succ left ih =>
    have hiff : den.lo &&& 1#64 = 0#64 ∨ rem.lt den = true ↔
        den.toNat % 2 = 0 ∨ rem.toNat < den.toNat := or_congr (even_iff den) lt_iff
    rw [Int64x64.castOff, castOff]
    by_cases hcast : den.toNat % 2 = 0 ∨ rem.toNat < den.toNat
    · rw [if_pos hcast, if_pos (hiff.mpr hcast), ← toNat_rsl_one, ih]
    · rw [if_neg hcast, if_neg (mt hiff.mp hcast)]

theorem divrem_of_native {q r : Nat} (h : Int64x64.divMod a.toNat b.toNat = .ok (q, r)) :
    ∃ cq cr, divrem a b = .ok (cq, cr) ∧ cq.toNat = q ∧ cr.toNat = r := by
  unfold Int64x64.divMod at h
  split at h
  · simp at h
  · rename_i hb
    obtain ⟨cq, cr, hdivrem, hq, hr⟩ := divrem_eq hb
    rw [Except.ok.injEq, Prod.mk.injEq] at h
    exact ⟨cq, cr, hdivrem, hq.trans h.1, hr.trans h.2⟩

theorem skipDivisor_le (left shift : Nat) (den : Uint128) :
    (skipDivisor left shift den).1 ≤ shift + left := by
  induction left generalizing shift den with
  | zero => exact le_refl _
  | succ left ih =>
    rw [skipDivisor]
    split
    · have hle := ih (shift + 1) (den.rsl 1)
      omega
    · exact Nat.le_add_right _ _

theorem skipRemainder_le (left shift : Nat) (rem : Uint128) :
    (skipRemainder left shift rem).1 ≤ shift + left := by
  induction left generalizing shift rem with
  | zero => exact le_refl _
  | succ left ih =>
    rw [skipRemainder]
    split
    · have hle := ih (shift + 1) (rem.lsl 1)
      omega
    · exact Nat.le_add_right _ _

theorem castOff_le (left shift : Nat) (rem den : Uint128) :
    (castOff rem left shift den).1 ≤ shift + left := by
  induction left generalizing shift den with
  | zero => exact le_refl _
  | succ left ih =>
    rw [castOff]
    split
    · have hle := ih (shift + 1) (den.rsl 1)
      omega
    · exact Nat.le_add_right _ _

theorem udivLoop_of_native {fuel digis shift n d : Nat} {rem den result : Uint128}
    (hdigis : digis + shift ≤ Int64x64.DIGITS)
    (h : Int64x64.udivLoop fuel rem.toNat den.toNat result.toNat digis shift = .ok (n, d)) :
    ∃ c, udivLoop fuel rem den result digis shift = .ok (c, d) ∧ c.toNat = n := by
  have h64 : Int64x64.DIGITS = 64 := rfl
  induction fuel generalizing rem den result digis shift with
  | zero => simp [Int64x64.udivLoop] at h
  | succ fuel ih =>
    have hzero : rem.eq (ofUint32 0#32) = false ↔ rem.toNat ≠ 0 := by
      rw [← Bool.not_eq_true, eq_iff, toNat_ofUint32, BitVec.toNat_ofNat, Nat.zero_mod]
    rw [Int64x64.udivLoop] at h
    rw [udivLoop]
    split at h
    · rename_i hmore
      rw [if_pos ⟨hmore.1, hzero.mpr hmore.2⟩]
      rw [skipRemainder_eq] at h
      have hshift := skipRemainder_le (Int64x64.DIGITS - (digis + shift)) shift rem
      generalize skipRemainder (Int64x64.DIGITS - (digis + shift)) shift rem = skipped
        at h hshift ⊢
      obtain ⟨shift', rem'⟩ := skipped
      dsimp only at h hshift ⊢
      rw [castOff_eq] at h
      have hshift' := castOff_le (Int64x64.DIGITS - (digis + shift')) shift' rem' den
      generalize castOff rem' (Int64x64.DIGITS - (digis + shift')) shift' den = cast
        at h hshift' ⊢
      obtain ⟨shift'', den'⟩ := cast
      dsimp only at h hshift' ⊢
      obtain ⟨⟨q, r⟩, hdivision, h⟩ := bind_eq_ok.mp h
      obtain ⟨cq, cr, hdivrem, rfl, rfl⟩ := divrem_of_native hdivision
      have hresult : wadd 128 (Int64x64.wshl 128 result.toNat shift'') cq.toNat =
          ((result.lsl shift'').add cq).toNat := by
        rw [toNat_add, toNat_lsl (by omega)]
        rfl
      dsimp only at h
      rw [hresult] at h
      rw [hdivrem, ok_bind]
      exact ih (by omega) h
    · rename_i hstop
      rw [Except.ok.injEq, Prod.mk.injEq] at h
      rw [if_neg (fun hmore => hstop ⟨hmore.1, hzero.mp hmore.2⟩), h.2]
      exact ⟨result, rfl, h.1⟩

theorem udiv_of_native {n : Nat} (h : Int64x64.udiv a.toNat b.toNat = .ok n) :
    ∃ c, udiv a b = .ok c ∧ c.toNat = n := by
  obtain ⟨⟨q, r⟩, hdivision, h⟩ := bind_eq_ok.mp h
  obtain ⟨cq, cr, hdivrem, rfl, rfl⟩ := divrem_of_native hdivision
  obtain ⟨_, hless, h⟩ := bind_eq_ok.mp h
  have h64 : Int64x64.DIGITS = 64 := rfl
  have hlt : cr.lt b = true := lt_iff.mpr (of_decide_eq_true (nsAssert_eq_ok.mp hless))
  rw [skipDivisor_eq] at h
  have hshift := skipDivisor_le Int64x64.DIGITS 0 b
  rw [udiv, hdivrem, ok_bind]
  dsimp only
  rw [hlt]
  generalize skipDivisor Int64x64.DIGITS 0 b = skipped at h hshift ⊢
  obtain ⟨shift, den⟩ := skipped
  obtain ⟨⟨result, digis⟩, hloop, h⟩ := bind_eq_ok.mp h
  obtain ⟨c, hcairo, rfl⟩ := udivLoop_of_native (by omega) hloop
  dsimp only at hcairo h ⊢
  rw [hcairo]
  rw [pure_eq_ok] at h
  refine ⟨_, rfl, ?_⟩
  dsimp only
  split
  · rename_i hless
    rw [if_pos hless] at h
    rw [toNat_lsl (show Int64x64.DIGITS - digis < 128 by omega), ← h]
    rfl
  · rename_i hall
    rw [if_neg hall] at h
    exact h

/-! ## The whole functions -/

section Whole

open Int64x64 (Representable signedProduct signedQuotient ofWide NoOverflow)

variable {x y : Int64x64}

theorem mul_bits (h : Representable (signedProduct x y)) :
    mul (bits x) (bits y) = .ok (bits (ofWide (signedProduct x y))) := by
  have hx := x.le_v
  have hx' := x.v_lt
  have hy := y.le_v
  have hy' := y.v_lt
  obtain ⟨hnative, hlt⟩ := Int64x64.umul_representable h
  rw [← toNat_ofNat (show x.v.natAbs < 2 ^ 128 by omega),
    ← toNat_ofNat (show y.v.natAbs < 2 ^ 128 by omega)] at hnative
  obtain ⟨c, hcairo, hc⟩ := umul_of_native hnative
  rw [toNat_ofNat (by omega), toNat_ofNat (by omega)] at hc
  rw [mul, outputSign_eq]
  dsimp only
  rw [hcairo, ok_bind, ← ofNat_toNat c, hc]
  exact congrArg Except.ok (signed_bits hlt _)

/-- The portable division agrees with the native one where the quotient fits. -/
theorem div_bits (hy : y.v ≠ 0) (h : Representable (signedQuotient x y)) :
    div (bits x) (bits y) = .ok (bits (ofWide (signedQuotient x y))) := by
  have hx := x.le_v
  have hx' := x.v_lt
  have hyle := y.le_v
  have hylt := y.v_lt
  obtain ⟨hnative, hlt⟩ := Int64x64.udiv_representable hy h
  rw [← toNat_ofNat (show x.v.natAbs < 2 ^ 128 by omega),
    ← toNat_ofNat (show y.v.natAbs < 2 ^ 128 by omega)] at hnative
  obtain ⟨c, hcairo, hc⟩ := udiv_of_native hnative
  rw [toNat_ofNat (by omega), toNat_ofNat (by omega)] at hc
  rw [div, outputSign_eq]
  dsimp only
  rw [hcairo, ok_bind, ← ofNat_toNat c, hc]
  exact congrArg Except.ok (signed_bits hlt _)

/-- **Division is exact.** On magnitudes of at most `2 ^ 127` both versions of `Udiv` return the
quotient to 64 binary places, modulo `2 ^ 128`; where it can be held, both versions of `Div`
truncate it toward zero. -/
theorem division_exact :
    (∀ a b : Nat, a ≤ 2 ^ 127 → 0 < b → b ≤ 2 ^ 127 →
      Int64x64.udiv a b = .ok (a * 2 ^ 64 / b % 2 ^ 128) ∧
      udiv (ofNat a) (ofNat b) = .ok (ofNat (a * 2 ^ 64 / b % 2 ^ 128))) ∧
    (∀ x y : Int64x64, y.v ≠ 0 → Representable (signedQuotient x y) →
      ∃ z : Int64x64, z.v = signedQuotient x y ∧ x.div y = .ok z ∧
        div (bits x) (bits y) = .ok (bits z)) := by
  refine ⟨?_, ?_⟩
  · intro a b ha hb hle
    have hnative := Int64x64.udiv_eq (show a < 2 ^ 128 by omega) hb hle
    refine ⟨hnative, ?_⟩
    rw [← toNat_ofNat (show a < 2 ^ 128 by omega), ← toNat_ofNat (show b < 2 ^ 128 by omega)]
      at hnative
    obtain ⟨c, hcairo, hc⟩ := udiv_of_native hnative
    rw [toNat_ofNat (by omega), toNat_ofNat (by omega)] at hc
    rw [hcairo, ← hc, ofNat_toNat]
  · intro x y hy h
    exact ⟨_, Int64x64.ofWide_representable h, Int64x64.div_eq hy h, div_bits hy h⟩

theorem division_exact_third :
    (Int64x64.udiv 1 3 = .ok (1 * 2 ^ 64 / 3 % 2 ^ 128) ∧
      udiv (ofNat 1) (ofNat 3) = .ok (ofNat (1 * 2 ^ 64 / 3 % 2 ^ 128))) ∧
    ∃ z : Int64x64, z.v = signedQuotient (ofWide (-1)) (ofWide 3) ∧
      (ofWide (-1)).div (ofWide 3) = .ok z ∧
      div (bits (ofWide (-1))) (bits (ofWide 3)) = .ok (bits z) :=
  ⟨division_exact.1 1 3 (by decide) (by decide) (by decide),
    division_exact.2 (ofWide (-1)) (ofWide 3) (by decide) (by decide)⟩

/-- **Multiplication is exact or refused.** Where the truncated product can be held, both versions
return it; where it cannot, the native one fails an assertion. -/
theorem product_exact_or_refused (x y : Int64x64) :
    (Representable (signedProduct x y) →
      NoOverflow x.v.natAbs y.v.natAbs ∧
      Int64x64.umul x.v.natAbs y.v.natAbs = .ok (x.v.natAbs * y.v.natAbs / 2 ^ 64) ∧
      ∃ z : Int64x64, z.v = signedProduct x y ∧ x.mul y = .ok z ∧
        mul (bits x) (bits y) = .ok (bits z)) ∧
    (¬Representable (signedProduct x y) → x.mul y = .error .assertFailed) := by
  have hx := x.le_v
  have hx' := x.v_lt
  have hy := y.le_v
  have hy' := y.v_lt
  refine ⟨?_, ?_⟩
  · intro h
    obtain ⟨humul, hlt⟩ := Int64x64.umul_representable h
    refine ⟨.of_lt (by omega) (by omega) hlt, humul, _, Int64x64.ofWide_representable h, ?_,
      mul_bits h⟩
    rw [Int64x64.mul_eq, if_pos h]
  · intro h
    rw [Int64x64.mul_eq, if_neg h]

theorem product_exact_or_refused_halves :
    (NoOverflow (ofWide (2 ^ 63)).v.natAbs (ofWide (-2 ^ 63)).v.natAbs ∧
      Int64x64.umul (ofWide (2 ^ 63)).v.natAbs (ofWide (-2 ^ 63)).v.natAbs =
        .ok ((ofWide (2 ^ 63)).v.natAbs * (ofWide (-2 ^ 63)).v.natAbs / 2 ^ 64) ∧
      ∃ z : Int64x64, z.v = signedProduct (ofWide (2 ^ 63)) (ofWide (-2 ^ 63)) ∧
        (ofWide (2 ^ 63)).mul (ofWide (-2 ^ 63)) = .ok z ∧
        mul (bits (ofWide (2 ^ 63))) (bits (ofWide (-2 ^ 63))) = .ok (bits z)) ∧
    (ofWide (-2 ^ 127)).mul (ofWide (-2 ^ 127)) = .error .assertFailed :=
  ⟨(product_exact_or_refused (ofWide (2 ^ 63)) (ofWide (-2 ^ 63))).1 (by decide),
    (product_exact_or_refused (ofWide (-2 ^ 127)) (ofWide (-2 ^ 127))).2 (by decide)⟩

/-- A product that lies below the least number, by less than the last place, is returned as
the least number. -/
theorem product_below_returned :
    (ofWide (2 ^ 96 - 2 ^ 48 + 1)).v * (ofWide (-(2 ^ 95 + 2 ^ 47))).v < -2 ^ 127 * 2 ^ 64 ∧
      (ofWide (2 ^ 96 - 2 ^ 48 + 1)).mul (ofWide (-(2 ^ 95 + 2 ^ 47))) =
        .ok (ofWide (-2 ^ 127)) := by
  decide +kernel

end Whole

end Ns3.Cairo
