/-
  Unsigned machine words, and distances on the circle they form.

  A `w`-bit unsigned variable is a natural below `2 ^ w`; its addition and
  subtraction wrap.  The two rules below say when a wrapped operation is the
  operation on naturals: no carry out of the word, no borrow into it.

  A wrapping counter lives on a circle of `2 ^ w` points.  Once a base point is
  fixed, every point has a clockwise distance from it, and a counter that stays
  within a known reach of the base can be reasoned about through that distance,
  a natural number that does not wrap.
-/
import Mathlib.Data.Nat.Basic
import Mathlib.Data.BitVec

namespace Ns3.Lib

/-- Addition of `w`-bit unsigned words. -/
def wadd (w a b : Nat) : Nat := (a + b) % 2 ^ w

/-- Subtraction of `w`-bit unsigned words. -/
def wsub (w a b : Nat) : Nat := (a + (2 ^ w - b % 2 ^ w)) % 2 ^ w

/-- A `w`-bit unsigned word read as a two's complement number. -/
def signed (w a : Nat) : Int := if a < 2 ^ (w - 1) then a else a - 2 ^ w

theorem signed_eq {w a : Nat} (h : a < 2 ^ (w - 1)) : signed w a = a := if_pos h

theorem wadd_lt (w a b : Nat) : wadd w a b < 2 ^ w :=
  Nat.mod_lt _ (Nat.two_pow_pos w)

theorem wsub_lt (w a b : Nat) : wsub w a b < 2 ^ w :=
  Nat.mod_lt _ (Nat.two_pow_pos w)

theorem wadd_assoc (w a b c : Nat) : wadd w (wadd w a b) c = wadd w a (wadd w b c) := by
  rw [wadd, wadd, wadd, wadd, Nat.mod_add_mod, Nat.add_mod_mod, Nat.add_assoc]

theorem wadd_right_comm (w a b c : Nat) : wadd w (wadd w a b) c = wadd w (wadd w a c) b := by
  rw [wadd, wadd, wadd, wadd, Nat.mod_add_mod, Nat.mod_add_mod, Nat.add_right_comm]

theorem wadd_eq {w a b : Nat} (h : a + b < 2 ^ w) : wadd w a b = a + b :=
  Nat.mod_eq_of_lt h

theorem wsub_eq {w a b : Nat} (ha : a < 2 ^ w) (hb : b ≤ a) :
    wsub w a b = a - b := by
  unfold wsub
  rw [Nat.mod_eq_of_lt (hb.trans_lt ha)]
  have hsum : a + (2 ^ w - b) = (a - b) + 2 ^ w := by omega
  rw [hsum, Nat.add_mod_right, Nat.mod_eq_of_lt (by omega)]

theorem wsub_mod (w a b : Nat) : wsub w ((b + a) % 2 ^ w) b = a % 2 ^ w := by
  have hlt : b % 2 ^ w < 2 ^ w := Nat.mod_lt _ (Nat.two_pow_pos w)
  have hdiv := Nat.div_add_mod b (2 ^ w)
  have hsum : b + a + (2 ^ w - b % 2 ^ w) = a + 2 ^ w * (b / 2 ^ w + 1) := by
    rw [Nat.mul_add, Nat.mul_one]
    omega
  rw [wsub, Nat.mod_add_mod, hsum, Nat.add_mul_mod_self_left]

theorem withdraw {w count weight rest : Nat} {flag : Bool} (hlt : count < 2 ^ w)
    (h : (if flag then weight else 0) + rest = count) :
    (if flag then wsub w count weight else count) = rest := by
  cases flag with
  | false => simpa using h.symm
  | true =>
    simp only [if_true] at h ⊢
    rw [wsub_eq hlt (by omega)]
    omega

/-! ## Words that are moved -/

/-- Adding `m` carries out of both words or out of neither. -/
def SameLap (w m a b : Nat) : Prop := a + m < 2 ^ w ↔ b + m < 2 ^ w

section

variable {w m a b : Nat}

theorem wadd_eq_sub (ha : a < 2 ^ w) (hm : m < 2 ^ w) (h : ¬a + m < 2 ^ w) :
    wadd w a m = a + m - 2 ^ w := by
  rw [wadd, Nat.mod_eq_sub_mod (Nat.le_of_not_lt h), Nat.mod_eq_of_lt (by omega)]

/-- **Order** is kept by moving two words that carry together. -/
theorem wadd_lt_wadd_iff (ha : a < 2 ^ w) (hb : b < 2 ^ w) (hm : m < 2 ^ w)
    (h : SameLap w m a b) : wadd w a m < wadd w b m ↔ a < b := by
  by_cases hcarry : a + m < 2 ^ w
  · rw [wadd_eq hcarry, wadd_eq (h.mp hcarry)]
    omega
  · have hcarry' : ¬b + m < 2 ^ w := fun hb => hcarry (h.mpr hb)
    rw [wadd_eq_sub ha hm hcarry, wadd_eq_sub hb hm hcarry']
    omega

theorem wsub_wadd_wadd (w a b m : Nat) : wsub w (wadd w a m) (wadd w b m) = wsub w a b := by
  have hlt : b % 2 ^ w < 2 ^ w := Nat.mod_lt _ (Nat.two_pow_pos w)
  have hlt' : (b + m) % 2 ^ w < 2 ^ w := Nat.mod_lt _ (Nat.two_pow_pos w)
  have hdiv := Nat.div_add_mod b (2 ^ w)
  have hdiv' := Nat.div_add_mod (b + m) (2 ^ w)
  rw [wsub, wsub, wadd, wadd, Nat.mod_add_mod, Nat.mod_mod]
  -- the two sides differ by whole turns
  have hturns : a + m + (2 ^ w - (b + m) % 2 ^ w) + 2 ^ w * (b / 2 ^ w) =
      a + (2 ^ w - b % 2 ^ w) + 2 ^ w * ((b + m) / 2 ^ w) := by omega
  rw [← Nat.add_mul_mod_self_left _ (2 ^ w) (b / 2 ^ w), hturns, Nat.add_mul_mod_self_left]

end

/-! ## The circle -/

namespace Circle

variable {w : Nat}

def dist (base x : BitVec w) : Nat := (x - base).toNat

theorem dist_lt (base x : BitVec w) : dist base x < 2 ^ w := (x - base).isLt

@[simp] theorem dist_self (base : BitVec w) : dist base base = 0 := by
  simp [dist]

theorem base_add_dist (base x : BitVec w) :
    base + BitVec.ofNat w (dist base x) = x := by
  unfold dist
  rw [BitVec.ofNat_toNat, BitVec.setWidth_eq, BitVec.add_comm, BitVec.sub_add_cancel]

theorem dist_injective (base : BitVec w) {x y : BitVec w}
    (h : dist base x = dist base y) : x = y := by
  rw [← base_add_dist base x, h, base_add_dist]

theorem dist_add {base x : BitVec w} {n : Nat} (h : dist base x + n < 2 ^ w) :
    dist base (x + BitVec.ofNat w n) = dist base x + n := by
  have hmove : x + BitVec.ofNat w n - base = (x - base) + BitVec.ofNat w n := by
    rw [BitVec.sub_eq_add_neg, BitVec.sub_eq_add_neg, BitVec.add_assoc,
      BitVec.add_comm (BitVec.ofNat w n), ← BitVec.add_assoc]
  unfold dist at *
  rw [hmove, BitVec.toNat_add, BitVec.toNat_ofNat, Nat.add_mod_mod,
    Nat.mod_eq_of_lt h]

theorem dist_base_add {base : BitVec w} {n : Nat} (h : n < 2 ^ w) :
    dist base (base + BitVec.ofNat w n) = n := by
  rw [dist_add (by simpa using h), dist_self, Nat.zero_add]

theorem dist_rebase {base mid x : BitVec w} (h : dist base mid ≤ dist base x) :
    dist mid x = dist base x - dist base mid := by
  have hx : x = mid + BitVec.ofNat w (dist base x - dist base mid) := by
    apply dist_injective base
    have hlt := dist_lt base x
    rw [dist_add (by omega)]
    omega
  have hlt := dist_lt base x
  rw [hx, dist_base_add (by omega), ← hx]

theorem dist_back {base x y : BitVec w} (h : dist base x < dist base y) :
    dist y x = 2 ^ w - (dist base y - dist base x) := by
  have hforward : dist x y = dist base y - dist base x := dist_rebase h.le
  have hneg : x - y = -(y - x) := by
    rw [BitVec.neg_sub, BitVec.sub_eq_add_neg, BitVec.add_comm]
  have hlt := dist_lt base y
  unfold dist at hforward ⊢
  rw [hneg, BitVec.toNat_neg, hforward, Nat.mod_eq_of_lt]
  unfold dist at h hlt
  omega

end Circle

end Ns3.Lib
