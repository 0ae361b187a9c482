/-
  128-bit integers in two words
  (src/core/model/cairo-wideint.c, cairo-wideint-private.h), as they are compiled where
  the compiler has 64-bit words and no 128-bit ones.

  Every operation is shown to be the arithmetic of naturals modulo `2 ^ 128`.
-/
import Mathlib.Tactic.Linarith
import Mathlib.Tactic.Ring
import Ns3.Core.Fault

namespace Ns3.Cairo

/-- `cairo_uint128_t`, also read as `cairo_int128_t`. -/
structure Uint128 where
  lo : BitVec 64
  hi : BitVec 64
  deriving DecidableEq, Repr

namespace Uint128

def ofUint64 (i : BitVec 64) : Uint128 := ⟨i, 0#64⟩

def ofUint32 (i : BitVec 32) : Uint128 := ⟨i.setWidth 64, 0#64⟩

def add (a b : Uint128) : Uint128 :=
  let hi := a.hi + b.hi
  let lo := a.lo + b.lo
  if lo < a.lo then ⟨lo, hi + 1#64⟩ else ⟨lo, hi⟩

def sub (a b : Uint128) : Uint128 :=
  let hi := a.hi - b.hi
  let lo := a.lo - b.lo
  if a.lo < lo then ⟨lo, hi - 1#64⟩ else ⟨lo, hi⟩

def lsl (a : Uint128) (shift : Nat) : Uint128 :=
  let (a, shift) := if 64 ≤ shift then (⟨0#64, a.lo⟩, shift - 64) else (a, shift)
  if shift ≠ 0 then ⟨a.lo <<< shift, (a.hi <<< shift) + (a.lo >>> (64 - shift))⟩ else a

def rsl (a : Uint128) (shift : Nat) : Uint128 :=
  let (a, shift) := if 64 ≤ shift then (⟨a.hi, 0#64⟩, shift - 64) else (a, shift)
  if shift ≠ 0 then ⟨(a.lo >>> shift) + (a.hi <<< (64 - shift)), a.hi >>> shift⟩ else a

/-- `_cairo_uint128_lt`. -/
def lt (a b : Uint128) : Bool :=
  decide (a.hi < b.hi) || (decide (a.hi = b.hi) && decide (a.lo < b.lo))

/-- `_cairo_uint128_le`, which is the negation of `_cairo_uint128_gt`. -/
def le (a b : Uint128) : Bool := !lt b a

/-- `_cairo_uint128_eq`. -/
def eq (a b : Uint128) : Bool := decide (a.hi = b.hi) && decide (a.lo = b.lo)

/-- `_cairo_uint128_ne`. -/
def ne (a b : Uint128) : Bool := !eq a b

def negate (a : Uint128) : Uint128 := add ⟨~~~a.lo, ~~~a.hi⟩ (ofUint32 1#32)

def negative (a : Uint128) : Bool := decide (a.hi.toInt < 0)

end Uint128

open Uint128

def uint32x32Mul (a b : BitVec 32) : BitVec 64 := a.setWidth 64 * b.setWidth 64

def uint64x64Mul (a b : BitVec 64) : Uint128 :=
  let al := a.setWidth 32
  let ah := (a >>> 32).setWidth 32
  let bl := b.setWidth 32
  let bh := (b >>> 32).setWidth 32
  let r0 := uint32x32Mul al bl
  let r1 := uint32x32Mul al bh
  let r2 := uint32x32Mul ah bl
  let r3 := uint32x32Mul ah bh
  -- "no carry possible"
  let r1 := r1 + (r0 >>> 32)
  -- "but this can carry"
  let r1 := r1 + r2
  let r3 := if r1 < r2 then r3 + (1#64 <<< 32) else r3
  ⟨(r1 <<< 32) + (r0 &&& 0xffffffff#64), r3 + (r1 >>> 32)⟩

/-- "Normalize to make den >= num, but not overflow": the divisor and its bit. -/
def normalize (num : Uint128) : (fuel : Nat) → (den bit : Uint128) →
    Except Fault (Uint128 × Uint128)
  | 0, _, _ => .error .noProgress
  | fuel + 1, den, bit =>
    if den.lt num && !den.hi.msb then normalize num fuel (den.lsl 1) (bit.lsl 1)
    else .ok (den, bit)

/-- "Generate quotient, one bit at a time": the quotient and the remainder. -/
def quotientBits : (fuel : Nat) → (num den bit quo : Uint128) →
    Except Fault (Uint128 × Uint128)
  | 0, _, _, _, _ => .error .noProgress
  | fuel + 1, num, den, bit, quo =>
    if bit.ne (ofUint32 0#32) then
      let (num, quo) := if den.le num then (num.sub den, quo.add bit) else (num, quo)
      quotientBits fuel num (den.rsl 1) (bit.rsl 1) quo
    else .ok (quo, num)

/-- `_cairo_uint128_divrem`. The divisor is shifted out of its words after 127 steps at most, its
bit after 128. -/
def divrem (num den : Uint128) : Except Fault (Uint128 × Uint128) := do
  let (den, bit) ← normalize num 128 den (ofUint32 1#32)
  quotientBits 129 num den bit (ofUint32 0#32)

/-! ## The numbers they stand for -/

namespace Uint128

def toNat (a : Uint128) : Nat := a.hi.toNat * 2 ^ 64 + a.lo.toNat

def ofNat (n : Nat) : Uint128 := ⟨BitVec.ofNat 64 n, BitVec.ofNat 64 (n / 2 ^ 64)⟩

variable {a b : Uint128} {n : Nat}

theorem toNat_lt (a : Uint128) : a.toNat < 2 ^ 128 := by
  have hlo := a.lo.isLt
  have hhi := a.hi.isLt
  unfold toNat
  omega

theorem toNat_inj : a.toNat = b.toNat ↔ a = b := by
  constructor
  · intro h
    have ha := a.lo.isLt
    have hb := b.lo.isLt
    unfold toNat at h
    have hlo : a.lo = b.lo := BitVec.eq_of_toNat_eq (by omega)
    have hhi : a.hi = b.hi := BitVec.eq_of_toNat_eq (by omega)
    cases a
    cases b
    exact congrArg₂ mk hlo hhi
  · rintro rfl
    rfl

theorem toNat_ofNat (h : n < 2 ^ 128) : (ofNat n).toNat = n := by
  simp only [toNat, ofNat, BitVec.toNat_ofNat]
  omega

@[simp] theorem ofNat_toNat (a : Uint128) : ofNat a.toNat = a :=
  toNat_inj.mp (toNat_ofNat a.toNat_lt)

theorem toNat_lo (a : Uint128) : a.lo.toNat = a.toNat % 2 ^ 64 := by
  have hlo := a.lo.isLt
  unfold toNat
  omega

theorem toNat_hi (a : Uint128) : a.hi.toNat = a.toNat / 2 ^ 64 := by
  have hlo := a.lo.isLt
  unfold toNat
  omega

@[simp] theorem toNat_ofUint64 (i : BitVec 64) : (ofUint64 i).toNat = i.toNat := by
  simp [ofUint64, toNat]

@[simp] theorem toNat_ofUint32 (i : BitVec 32) : (ofUint32 i).toNat = i.toNat := by
  have hi := i.isLt
  simp only [ofUint32, toNat, BitVec.toNat_setWidth, BitVec.toNat_ofNat]
  omega

@[simp] theorem toNat_add (a b : Uint128) : (a.add b).toNat = (a.toNat + b.toNat) % 2 ^ 128 := by
  have ha := a.lo.isLt
  have hb := b.lo.isLt
  unfold add
  dsimp only
  split
  · rename_i hcarry
    simp only [BitVec.lt_def, BitVec.toNat_add] at hcarry
    simp only [toNat, BitVec.toNat_add, BitVec.toNat_ofNat]
    omega
  · rename_i hcarry
    simp only [BitVec.lt_def, BitVec.toNat_add] at hcarry
    simp only [toNat, BitVec.toNat_add]
    omega

theorem toNat_sub (h : b.toNat ≤ a.toNat) : (a.sub b).toNat = a.toNat - b.toNat := by
  have ha' := a.hi.isLt
  unfold toNat at h
  unfold sub
  dsimp only
  split
  · rename_i hborrow
    simp only [BitVec.lt_def, BitVec.toNat_sub] at hborrow
    simp only [toNat, BitVec.toNat_sub, BitVec.toNat_ofNat]
    omega
  · rename_i hborrow
    simp only [BitVec.lt_def, BitVec.toNat_sub] at hborrow
    simp only [toNat, BitVec.toNat_sub]
    omega

theorem lt_iff : a.lt b = true ↔ a.toNat < b.toNat := by
  have ha := a.lo.isLt
  have hb := b.lo.isLt
  simp only [lt, Bool.or_eq_true, Bool.and_eq_true, decide_eq_true_eq, BitVec.lt_def,
    ← BitVec.toNat_inj, toNat]
  omega

theorem le_iff : a.le b = true ↔ a.toNat ≤ b.toNat := by
  rw [le, Bool.not_eq_true', ← Bool.not_eq_true, lt_iff, Nat.not_lt]

theorem eq_iff : a.eq b = true ↔ a.toNat = b.toNat := by
  have ha := a.lo.isLt
  have hb := b.lo.isLt
  simp only [eq, Bool.and_eq_true, decide_eq_true_eq, ← BitVec.toNat_inj, toNat]
  omega

theorem ne_iff : a.ne b = true ↔ a.toNat ≠ b.toNat := by
  rw [ne, Bool.not_eq_true', ← Bool.not_eq_true, eq_iff]

@[simp] theorem toNat_negate (a : Uint128) : a.negate.toNat = (2 ^ 128 - a.toNat) % 2 ^ 128 := by
  have ha := a.lo.isLt
  have ha' := a.hi.isLt
  rw [negate, toNat_add]
  simp only [toNat, BitVec.toNat_not, ofUint32, BitVec.toNat_setWidth, BitVec.toNat_ofNat]
  omega

theorem negative_iff : a.negative = true ↔ 2 ^ 127 ≤ a.toNat := by
  have ha := a.lo.isLt
  simp only [negative, decide_eq_true_eq, toNat, BitVec.toInt_neg_iff]
  omega

theorem shift_words {h l s : Nat} (hlt : s < 64) :
    (h * 2 ^ s + l / 2 ^ (64 - s)) % 2 ^ 64 * 2 ^ 64 + l * 2 ^ s % 2 ^ 64 =
      (h * 2 ^ 64 + l) * 2 ^ s % 2 ^ 128 := by
  have hpow : 2 ^ (64 - s) * 2 ^ s = 2 ^ 64 := by
    rw [← Nat.pow_add, Nat.sub_add_cancel hlt.le]
  have hquot : l / 2 ^ (64 - s) = l * 2 ^ s / 2 ^ 64 := by
    rw [← hpow, Nat.mul_div_mul_right _ _ (Nat.two_pow_pos s)]
  have hsplit : (h * 2 ^ 64 + l) * 2 ^ s = h * 2 ^ s * 2 ^ 64 + l * 2 ^ s := by ring
  rw [hquot, hsplit]
  generalize h * 2 ^ s = x
  generalize l * 2 ^ s = y
  omega

theorem toNat_lsl {shift : Nat} (hshift : shift < 128) :
    (a.lsl shift).toNat = a.toNat * 2 ^ shift % 2 ^ 128 := by
  have hlo := a.lo.isLt
  have hsmall : ∀ (hi lo : BitVec 64) (s : Nat), 0 < s → s < 64 →
      (⟨lo <<< s, (hi <<< s) + (lo >>> (64 - s))⟩ : Uint128).toNat =
        (hi.toNat * 2 ^ 64 + lo.toNat) * 2 ^ s % 2 ^ 128 := by
    intro hi lo s _ hlt
    simp only [toNat, BitVec.toNat_add, BitVec.toNat_shiftLeft, BitVec.toNat_ushiftRight,
      Nat.shiftLeft_eq, Nat.shiftRight_eq_div_pow, Nat.mod_add_mod]
    exact shift_words hlt
  unfold lsl
  by_cases hword : 64 ≤ shift
  · obtain ⟨s, rfl⟩ := Nat.exists_eq_add_of_le hword
    have hvalue : a.toNat * 2 ^ (64 + s) % 2 ^ 128 = a.lo.toNat * 2 ^ 64 * 2 ^ s % 2 ^ 128 := by
      have hsplit : a.toNat * 2 ^ (64 + s) =
          a.lo.toNat * 2 ^ 64 * 2 ^ s + 2 ^ 128 * (a.hi.toNat * 2 ^ s) := by
        rw [toNat, Nat.pow_add]
        ring
      rw [hsplit, Nat.add_mul_mod_self_left]
    rw [if_pos hword]
    dsimp only
    rw [Nat.add_sub_cancel_left, hvalue]
    split
    · rename_i hs
      rw [hsmall _ _ _ (Nat.pos_of_ne_zero hs) (by omega), BitVec.toNat_ofNat, Nat.zero_mod,
        Nat.add_zero]
    · rename_i hs
      rw [not_not.mp hs, Nat.pow_zero, Nat.mul_one]
      simp only [toNat, BitVec.toNat_ofNat]
      omega
  · rw [if_neg hword]
    dsimp only
    split
    · rename_i hs
      exact hsmall _ _ _ (Nat.pos_of_ne_zero hs) (by omega)
    · rename_i hs
      rw [not_not.mp hs, Nat.pow_zero, Nat.mul_one, Nat.mod_eq_of_lt a.toNat_lt]

theorem unshift_words {h l s : Nat} (hl : l < 2 ^ 64) (hlt : s < 64) :
    h / 2 ^ s * 2 ^ 64 + (l / 2 ^ s + h * 2 ^ (64 - s) % 2 ^ 64) % 2 ^ 64 =
      (h * 2 ^ 64 + l) / 2 ^ s := by
  have hpow : 2 ^ (64 - s) * 2 ^ s = 2 ^ 64 := by
    rw [← Nat.pow_add, Nat.sub_add_cancel hlt.le]
  have hlow : l / 2 ^ s < 2 ^ (64 - s) := by
    rw [Nat.div_lt_iff_lt_mul (Nat.two_pow_pos s), hpow]
    exact hl
  have hmod : h * 2 ^ (64 - s) % 2 ^ 64 = h % 2 ^ s * 2 ^ (64 - s) := by
    rw [← hpow, Nat.mul_comm h, Nat.mul_mod_mul_left, Nat.mul_comm]
  have hrem : h % 2 ^ s * 2 ^ (64 - s) + l / 2 ^ s < 2 ^ 64 := by
    have hle : h % 2 ^ s + 1 ≤ 2 ^ s := Nat.mod_lt _ (Nat.two_pow_pos s)
    calc h % 2 ^ s * 2 ^ (64 - s) + l / 2 ^ s < (h % 2 ^ s + 1) * 2 ^ (64 - s) := by
          rw [Nat.add_mul, Nat.one_mul]
          exact Nat.add_lt_add_left hlow _
      _ ≤ 2 ^ s * 2 ^ (64 - s) := Nat.mul_le_mul_right _ hle
      _ = 2 ^ 64 := by rw [Nat.mul_comm, hpow]
  have hquot : (h * 2 ^ 64 + l) / 2 ^ s = h * 2 ^ (64 - s) + l / 2 ^ s := by
    rw [← hpow, ← Nat.mul_assoc, Nat.add_comm, Nat.add_mul_div_right _ _ (Nat.two_pow_pos s),
      Nat.add_comm]
  have hdiv : h * 2 ^ (64 - s) = h / 2 ^ s * 2 ^ 64 + h % 2 ^ s * 2 ^ (64 - s) := by
    calc h * 2 ^ (64 - s) = (2 ^ s * (h / 2 ^ s) + h % 2 ^ s) * 2 ^ (64 - s) := by
          rw [Nat.div_add_mod]
      _ = h / 2 ^ s * (2 ^ (64 - s) * 2 ^ s) + h % 2 ^ s * 2 ^ (64 - s) := by ring
      _ = h / 2 ^ s * 2 ^ 64 + h % 2 ^ s * 2 ^ (64 - s) := by rw [hpow]
  rw [hmod, Nat.mod_eq_of_lt (by omega), hquot, hdiv]
  omega

theorem toNat_rsl {shift : Nat} (hshift : shift < 128) :
    (a.rsl shift).toNat = a.toNat / 2 ^ shift := by
  have hlo := a.lo.isLt
  have hsmall : ∀ (hi lo : BitVec 64) (s : Nat), 0 < s → s < 64 →
      (⟨(lo >>> s) + (hi <<< (64 - s)), hi >>> s⟩ : Uint128).toNat =
        (hi.toNat * 2 ^ 64 + lo.toNat) / 2 ^ s := by
    intro hi lo s _ hlt
    simp only [toNat, BitVec.toNat_add, BitVec.toNat_shiftLeft, BitVec.toNat_ushiftRight,
      Nat.shiftLeft_eq, Nat.shiftRight_eq_div_pow]
    exact unshift_words lo.isLt hlt
  unfold rsl
  by_cases hword : 64 ≤ shift
  · obtain ⟨s, rfl⟩ := Nat.exists_eq_add_of_le hword
    have hvalue : a.toNat / 2 ^ (64 + s) = a.hi.toNat / 2 ^ s := by
      have hhigh : a.toNat / 2 ^ 64 = a.hi.toNat := by
        unfold toNat
        omega
      rw [Nat.pow_add, ← Nat.div_div_eq_div_mul, hhigh]
    rw [if_pos hword]
    dsimp only
    rw [Nat.add_sub_cancel_left, hvalue]
    split
    · rename_i hs
      rw [hsmall _ _ _ (Nat.pos_of_ne_zero hs) (by omega), BitVec.toNat_ofNat, Nat.zero_mod,
        Nat.zero_mul, Nat.zero_add]
    · rename_i hs
      rw [not_not.mp hs, Nat.pow_zero, Nat.div_one]
      simp only [toNat, BitVec.toNat_ofNat]
      omega
  · rw [if_neg hword]
    dsimp only
    split
    · rename_i hs
      exact hsmall _ _ _ (Nat.pos_of_ne_zero hs) (by omega)
    · rename_i hs
      rw [not_not.mp hs, Nat.pow_zero, Nat.div_one]

theorem toNat_lsl_one (h : a.toNat < 2 ^ 127) : (a.lsl 1).toNat = a.toNat * 2 := by
  rw [toNat_lsl (by omega), Nat.pow_one, Nat.mod_eq_of_lt (by omega)]

theorem toNat_rsl_one (a : Uint128) : (a.rsl 1).toNat = a.toNat / 2 := by
  rw [toNat_rsl (by omega), Nat.pow_one]

theorem msb_iff : a.hi.msb = true ↔ 2 ^ 127 ≤ a.toNat := by
  have hlo := a.lo.isLt
  rw [BitVec.msb_eq_decide, decide_eq_true_eq]
  unfold toNat
  omega

end Uint128

/-! ## Products -/

theorem uint32x32Mul_toNat (a b : BitVec 32) : (uint32x32Mul a b).toNat = a.toNat * b.toNat := by
  have hle : a.toNat * b.toNat ≤ (2 ^ 32 - 1) * (2 ^ 32 - 1) :=
    Nat.mul_le_mul (Nat.le_pred_of_lt a.isLt) (Nat.le_pred_of_lt b.isLt)
  have ha := a.isLt
  have hb := b.isLt
  have ha' : a.toNat < 2 ^ 64 := by omega
  have hb' : b.toNat < 2 ^ 64 := by omega
  rw [uint32x32Mul, BitVec.toNat_mul, BitVec.toNat_setWidth, BitVec.toNat_setWidth,
    Nat.mod_eq_of_lt ha', Nat.mod_eq_of_lt hb', Nat.mod_eq_of_lt (by omega)]

theorem halves (x : BitVec 64) :
    x.toNat = ((x >>> 32).setWidth 32).toNat * 2 ^ 32 + (x.setWidth 32).toNat := by
  have hx := x.isLt
  simp only [BitVec.toNat_setWidth, BitVec.toNat_ushiftRight, Nat.shiftRight_eq_div_pow]
  omega

theorem carry_words {p0 p1 p2 p3 : Nat} (h0 : p0 ≤ (2 ^ 32 - 1) * (2 ^ 32 - 1))
    (h1 : p1 ≤ (2 ^ 32 - 1) * (2 ^ 32 - 1)) (h2 : p2 ≤ (2 ^ 32 - 1) * (2 ^ 32 - 1))
    (h3 : p3 ≤ (2 ^ 32 - 1) * (2 ^ 32 - 1)) {r1 : Nat}
    (hr1 : r1 = ((p1 + p0 / 2 ^ 32) % 2 ^ 64 + p2) % 2 ^ 64) :
    ((if r1 < p2 then (p3 + 2 ^ 32) % 2 ^ 64 else p3) + r1 / 2 ^ 32) % 2 ^ 64 * 2 ^ 64 +
        (r1 * 2 ^ 32 % 2 ^ 64 + p0 % 2 ^ 32) % 2 ^ 64 =
      p3 * 2 ^ 64 + (p1 + p2) * 2 ^ 32 + p0 := by
  have hsum : (p1 + p0 / 2 ^ 32) % 2 ^ 64 = p1 + p0 / 2 ^ 32 := by omega
  have hlow : (r1 * 2 ^ 32 % 2 ^ 64 + p0 % 2 ^ 32) % 2 ^ 64 =
      r1 % 2 ^ 32 * 2 ^ 32 + p0 % 2 ^ 32 := by
    omega
  rw [hsum] at hr1
  rw [hlow]
  split
  · rename_i hcarry
    have hr : r1 + 2 ^ 64 = p1 + p0 / 2 ^ 32 + p2 := by omega
    have hhigh :
        ((p3 + 2 ^ 32) % 2 ^ 64 + r1 / 2 ^ 32) % 2 ^ 64 = p3 + 2 ^ 32 + r1 / 2 ^ 32 := by omega
    rw [hhigh]
    omega
  · rename_i hno
    have hr : r1 = p1 + p0 / 2 ^ 32 + p2 := by omega
    have hhigh : (p3 + r1 / 2 ^ 32) % 2 ^ 64 = p3 + r1 / 2 ^ 32 := by omega
    rw [hhigh]
    omega

theorem toNat_uint64x64Mul (a b : BitVec 64) : (uint64x64Mul a b).toNat = a.toNat * b.toNat := by
  have hle : ∀ x y : BitVec 32, (uint32x32Mul x y).toNat ≤ (2 ^ 32 - 1) * (2 ^ 32 - 1) := by
    intro x y
    rw [uint32x32Mul_toNat]
    exact Nat.mul_le_mul (Nat.le_pred_of_lt x.isLt) (Nat.le_pred_of_lt y.isLt)
  have h0 := hle (a.setWidth 32) (b.setWidth 32)
  have h1 := hle (a.setWidth 32) ((b >>> 32).setWidth 32)
  have h2 := hle ((a >>> 32).setWidth 32) (b.setWidth 32)
  have h3 := hle ((a >>> 32).setWidth 32) ((b >>> 32).setWidth 32)
  have hproduct : a.toNat * b.toNat =
      (uint32x32Mul ((a >>> 32).setWidth 32) ((b >>> 32).setWidth 32)).toNat * 2 ^ 64 +
      ((uint32x32Mul (a.setWidth 32) ((b >>> 32).setWidth 32)).toNat +
        (uint32x32Mul ((a >>> 32).setWidth 32) (b.setWidth 32)).toNat) * 2 ^ 32 +
      (uint32x32Mul (a.setWidth 32) (b.setWidth 32)).toNat := by
    rw [halves a, halves b]
    simp only [uint32x32Mul_toNat]
    ring
  have hmask : (0xffffffff#64).toNat = 2 ^ 32 - 1 := by decide
  rw [hproduct]
  unfold uint64x64Mul
  dsimp only
  generalize uint32x32Mul (a.setWidth 32) (b.setWidth 32) = r0 at h0 ⊢
  generalize uint32x32Mul (a.setWidth 32) ((b >>> 32).setWidth 32) = r1 at h1 ⊢
  generalize uint32x32Mul ((a >>> 32).setWidth 32) (b.setWidth 32) = r2 at h2 ⊢
  generalize uint32x32Mul ((a >>> 32).setWidth 32) ((b >>> 32).setWidth 32) = r3 at h3 ⊢
  simp only [Uint128.toNat, BitVec.toNat_add, BitVec.toNat_shiftLeft, BitVec.toNat_ushiftRight,
    Nat.shiftLeft_eq, Nat.shiftRight_eq_div_pow, BitVec.toNat_and, hmask,
    Nat.and_two_pow_sub_one_eq_mod, BitVec.lt_def]
  have hcarry : ∀ (c : Prop) [Decidable c], (if c then r3 + 1#64 <<< 32 else r3).toNat =
      if c then (r3.toNat + 2 ^ 32) % 2 ^ 64 else r3.toNat := by
    intro c _
    split
    · rw [BitVec.toNat_add]
      rfl
    · rfl
  rw [hcarry]
  exact carry_words h0 h1 h2 h3 rfl

/-! ## Quotients -/

theorem normalize_eq {num : Uint128} {d fuel k : Nat} {den bit : Uint128} (hd : 0 < d)
    (hden : den.toNat = d * 2 ^ k) (hbit : bit.toNat = 2 ^ k) (hfuel : 128 ≤ fuel + k) :
    ∃ k' den' bit', normalize num fuel den bit = .ok (den', bit') ∧
      den'.toNat = d * 2 ^ k' ∧ bit'.toNat = 2 ^ k' ∧ k' < 128 ∧
      num.toNat < d * 2 ^ (k' + 1) := by
  have hpow : 2 ^ k ≤ den.toNat := by
    rw [hden]
    exact Nat.le_mul_of_pos_left _ hd
  have hk : k < 128 := by
    have hlt := hpow.trans_lt den.toNat_lt
    rwa [Nat.pow_lt_pow_iff_right (by omega)] at hlt
  induction fuel generalizing k den bit with
  | zero => omega
  | succ fuel ih =>
    have hnum := num.toNat_lt
    rw [normalize]
    split
    · rename_i hless
      rw [Bool.and_eq_true, Bool.not_eq_true', ← Bool.not_eq_true, lt_iff, msb_iff,
        Nat.not_le] at hless
      have hden' : (den.lsl 1).toNat = d * 2 ^ (k + 1) := by
        rw [toNat_lsl_one hless.2, hden, Nat.pow_succ, Nat.mul_assoc]
      have hbit' : (bit.lsl 1).toNat = 2 ^ (k + 1) := by
        rw [toNat_lsl_one (by omega), hbit, Nat.pow_succ]
      have hpow' : 2 ^ (k + 1) ≤ (den.lsl 1).toNat := by
        rw [hden']
        exact Nat.le_mul_of_pos_left _ hd
      have hk' : k + 1 < 128 := by
        have hlt := hpow'.trans_lt (den.lsl 1).toNat_lt
        rwa [Nat.pow_lt_pow_iff_right (by omega)] at hlt
      exact ih hden' hbit' (by omega) hpow' hk'
    · rename_i hstop
      rw [Bool.and_eq_true, Bool.not_eq_true', ← Bool.not_eq_true, lt_iff, msb_iff,
        Nat.not_le] at hstop
      have hpos := Nat.two_pow_pos k
      refine ⟨k, den, bit, rfl, hden, hbit, hk, ?_⟩
      rw [Nat.pow_succ, ← Nat.mul_assoc, ← hden]
      omega

variable {fuel : Nat} {num den bit quo : Uint128}

theorem quotientBits_zero (hbit : bit.toNat = 0) :
    quotientBits (fuel + 1) num den bit quo = .ok (quo, num) := by
  have hne : ¬bit.ne (ofUint32 0#32) = true := by
    rw [ne_iff, toNat_ofUint32, hbit]
    simp
  rw [quotientBits, if_neg hne]

theorem quotientBits_take (hbit : bit.toNat ≠ 0) (hle : den.toNat ≤ num.toNat) :
    quotientBits (fuel + 1) num den bit quo =
      quotientBits fuel (num.sub den) (den.rsl 1) (bit.rsl 1) (quo.add bit) := by
  have hne : bit.ne (ofUint32 0#32) = true := by
    rw [ne_iff, toNat_ofUint32]
    exact hbit
  rw [quotientBits, if_pos hne, if_pos (le_iff.mpr hle)]

theorem quotientBits_skip (hbit : bit.toNat ≠ 0) (hlt : num.toNat < den.toNat) :
    quotientBits (fuel + 1) num den bit quo =
      quotientBits fuel num (den.rsl 1) (bit.rsl 1) quo := by
  have hne : bit.ne (ofUint32 0#32) = true := by
    rw [ne_iff, toNat_ofUint32]
    exact hbit
  rw [quotientBits, if_pos hne, if_neg (mt le_iff.mp (Nat.not_le.mpr hlt))]

theorem quotient_room {quo bit den num d : Nat} (hd : 0 < d) (hbit : bit * d = den)
    (hle : den ≤ num) (hquo : quo * d + num < 2 ^ 128) : quo + bit < 2 ^ 128 := by
  calc quo + bit ≤ (quo + bit) * d := Nat.le_mul_of_pos_right _ hd
    _ = quo * d + den := by rw [Nat.add_mul, hbit]
    _ ≤ quo * d + num := Nat.add_le_add_left hle _
    _ < 2 ^ 128 := hquo

theorem quotientBits_eq {d k : Nat} (hd : 0 < d) (hden : den.toNat = d * 2 ^ k)
    (hbit : bit.toNat = 2 ^ k) (hfuel : k + 2 ≤ fuel) (hnum : num.toNat < d * 2 ^ (k + 1))
    (hquo : quo.toNat * d + num.toNat < 2 ^ 128) :
    ∃ q r, quotientBits fuel num den bit quo = .ok (q, r) ∧
      q.toNat = quo.toNat + num.toNat / d ∧ r.toNat = num.toNat % d := by
  induction k generalizing fuel num den bit quo with
  | zero =>
    obtain ⟨fuel, rfl⟩ := Nat.exists_eq_add_of_le' hfuel
    have hbit0 : bit.toNat ≠ 0 := by simp [hbit]
    have hlast : (bit.rsl 1).toNat = 0 := by
      rw [toNat_rsl_one, hbit]
      rfl
    rw [Nat.pow_zero, Nat.mul_one] at hden
    rw [Nat.zero_add, Nat.pow_one] at hnum
    by_cases hle : den.toNat ≤ num.toNat
    · have hquo' : (quo.add bit).toNat = quo.toNat + 1 := by
        have hroom := quotient_room hd (show 1 * d = den.toNat by rw [Nat.one_mul, hden]) hle hquo
        rw [toNat_add, hbit, Nat.pow_zero, Nat.mod_eq_of_lt hroom]
      have hnum' : (num.sub den).toNat = num.toNat - d := by rw [toNat_sub hle, hden]
      have hdiv : num.toNat / d = 1 := by
        rw [Nat.div_eq_iff hd]
        omega
      rw [quotientBits_take hbit0 hle, quotientBits_zero hlast]
      refine ⟨_, _, rfl, by rw [hquo', hdiv], ?_⟩
      rw [hnum', Nat.mod_eq_sub_mod (by omega), Nat.mod_eq_of_lt (by omega)]
    · rw [quotientBits_skip hbit0 (Nat.not_le.mp hle), quotientBits_zero hlast]
      refine ⟨_, _, rfl, ?_, ?_⟩
      · rw [Nat.div_eq_of_lt (by omega), Nat.add_zero]
      · rw [Nat.mod_eq_of_lt (by omega)]
  | succ k ih =>
    have hden' : (den.rsl 1).toNat = d * 2 ^ k := by
      rw [toNat_rsl_one, hden, Nat.pow_succ, ← Nat.mul_assoc, Nat.mul_div_cancel _ Nat.two_pos]
    have hbit' : (bit.rsl 1).toNat = 2 ^ k := by
      rw [toNat_rsl_one, hbit, Nat.pow_succ, Nat.mul_div_cancel _ Nat.two_pos]
    have hbit0 : bit.toNat ≠ 0 := by
      rw [hbit]
      exact Nat.ne_of_gt (Nat.two_pow_pos _)
    obtain ⟨fuel, rfl⟩ := Nat.exists_eq_add_of_le' (show 1 ≤ fuel by omega)
    have hden2 : d * 2 ^ (k + 1 + 1) = den.toNat * 2 := by
      rw [hden, Nat.pow_succ 2 (k + 1), Nat.mul_assoc]
    by_cases hle : den.toNat ≤ num.toNat
    · have hbitd : bit.toNat * d = den.toNat := by rw [hbit, hden, Nat.mul_comm]
      have hquo' : (quo.add bit).toNat = quo.toNat + bit.toNat := by
        rw [toNat_add, Nat.mod_eq_of_lt (quotient_room hd hbitd hle hquo)]
      have hnum' : (num.sub den).toNat = num.toNat - d * bit.toNat := by
        rw [toNat_sub hle, Nat.mul_comm, hbitd]
      have hmul : d * bit.toNat ≤ num.toNat := by
        rw [Nat.mul_comm, hbitd]
        exact hle
      obtain ⟨q, r, hloop, hq, hr⟩ := @ih fuel (num.sub den) (den.rsl 1) (bit.rsl 1) (quo.add bit)
        hden' hbit' (by omega)
        (by rw [hnum', ← hden, Nat.mul_comm d, hbitd]; omega)
        (by rw [hquo', hnum', Nat.add_mul, Nat.mul_comm d, hbitd]; omega)
      have hdiv : bit.toNat ≤ num.toNat / d := by
        rw [Nat.le_div_iff_mul_le hd, hbitd]
        exact hle
      rw [quotientBits_take hbit0 hle]
      refine ⟨q, r, hloop, ?_, ?_⟩
      · rw [hq, hquo', hnum', Nat.sub_mul_div_of_le _ _ _ hmul]
        omega
      · rw [hr, hnum', Nat.sub_mul_mod hmul]
    · rw [quotientBits_skip hbit0 (Nat.not_le.mp hle)]
      exact ih hden' hbit' (by omega) (by rw [← hden]; omega) hquo

theorem divrem_eq (hden : den.toNat ≠ 0) :
    ∃ q r, divrem num den = .ok (q, r) ∧ q.toNat = num.toNat / den.toNat ∧
      r.toNat = num.toNat % den.toNat := by
  have hpos := Nat.pos_of_ne_zero hden
  obtain ⟨k, den', bit, hnormal, hden', hbit, hk, hnum⟩ :=
    @normalize_eq num den.toNat 128 0 den (ofUint32 1#32) hpos (by rw [Nat.pow_zero, Nat.mul_one])
      (by simp) (by omega)
  have hzero : (ofUint32 0#32).toNat = 0 := by simp
  have hroom : (ofUint32 0#32).toNat * den.toNat + num.toNat < 2 ^ 128 := by
    rw [hzero, Nat.zero_mul, Nat.zero_add]
    exact num.toNat_lt
  obtain ⟨q, r, hbits, hq, hr⟩ :=
    quotientBits_eq hpos hden' hbit (show k + 2 ≤ 129 by omega) hnum hroom
  rw [hzero, Nat.zero_add] at hq
  refine ⟨q, r, ?_, hq, hr⟩
  rw [divrem, hnormal, ok_bind]
  exact hbits

end Ns3.Cairo
