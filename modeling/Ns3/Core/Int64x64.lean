/-
  Fixed-point numbers on native 128-bit integers
  (src/core/model/int64x64-128.h, int64x64-128.cc).

  A number is the `int128_t` that holds `2 ^ 64` times its value.  A `uint128_t` is a
  natural whose operations wrap; an operation on `int128_t` gives the two's complement of
  its result.
-/
import Ns3.Core.Fault
import Ns3.Lib.Wrap
import Mathlib.Data.Int.Basic

namespace Ns3

open Ns3.Lib

/-- A Q64.64 number: `v` counts units of 2^-64. -/
structure Int64x64 where
  v : Int
  le_v : -2 ^ 127 ≤ v
  v_lt : v < 2 ^ 127
  deriving DecidableEq

namespace Int64x64

@[ext] theorem ext {x y : Int64x64} (h : x.v = y.v) : x = y := by
  cases x
  cases y
  cases h
  rfl

/-! ## Words -/

def toInt64 (n : Int) : Int := n.bmod (2 ^ 64)

def ofWide (n : Int) : Int64x64 where
  v := n.bmod (2 ^ 128)
  le_v := by
    have hle := Int.le_bmod (x := n) (m := 2 ^ 128) (by decide)
    omega
  v_lt := by
    have hlt := Int.bmod_lt (x := n) (m := 2 ^ 128) (by decide)
    omega

def toUnsigned (n : Int) : Nat := (n % 2 ^ 128).toNat

/-- The absolute value as an `uint128_t`. -/
def magnitude (n : Int) : Nat := if n < 0 then wsub 128 0 (toUnsigned n) else toUnsigned n

/-- Multiplication of `w`-bit unsigned words. -/
def wmul (w a b : Nat) : Nat := a * b % 2 ^ w

/-- Left shift of `w`-bit unsigned words. -/
def wshl (w a n : Nat) : Nat := a * 2 ^ n % 2 ^ w

/-! ## Construction and access -/

def zero : Int64x64 := ofWide 0

def ofInt (n : Int) : Int64x64 := ofWide (n * 2 ^ 64)

/-- The constructor from the high and the low word; `hi << 64` leaves the low word empty. -/
def ofWords (hi : Int) (lo : Nat) : Int64x64 := ofWide (hi * 2 ^ 64 + lo)

def getHigh (x : Int64x64) : Int := x.v / 2 ^ 64

def getLow (x : Int64x64) : Nat := (x.v % 2 ^ 64).toNat

/-- `operator+=`. -/
def add (x y : Int64x64) : Int64x64 := ofWide (x.v + y.v)

/-- `operator-=`. -/
def sub (x y : Int64x64) : Int64x64 := ofWide (x.v - y.v)

def neg (x : Int64x64) : Int64x64 := ofWide (-x.v)

def round (x : Int64x64) : Int :=
  let negative := decide (x.v < 0)
  let value := if negative then x.neg else x
  let half := ofWords 0 (2 ^ 63)
  let retval := (value.add half).getHigh
  if negative then toInt64 (-retval) else retval

/-! ## Multiplication -/

def outputSign (sa sb : Int) : Bool × Nat × Nat :=
  (decide (sa < 0) != decide (sb < 0), magnitude sa, magnitude sb)

def umul (a b : Nat) : Except Fault Nat := do
  let al := a % 2 ^ 64
  let bl := b % 2 ^ 64
  let ah := a / 2 ^ 64
  let bh := b / 2 ^ 64
  let res := wmul 128 al bl / 2 ^ 64
  let mid := wadd 128 (wmul 128 ah bl) (wmul 128 al bh)
  let res := wadd 128 res mid
  let high := wmul 128 ah bh
  nsAssert (decide (high ≤ 2 ^ 63))
  let high := wshl 128 high 64
  nsAssert (decide (res ≤ wadd 128 res high))
  pure (wadd 128 res high)

def mul (x o : Int64x64) : Except Fault Int64x64 := do
  let (negative, a, b) := outputSign x.v o.v
  let result ← umul a b
  if negative then do
    nsAssert (decide (result ≤ 2 ^ 127))
    pure (ofWide (-result))
  else do
    nsAssert (decide (result < 2 ^ 127))
    pure (ofWide result)

/-! ## Division -/

/-- "Number of fraction digits (bits) we need". -/
def DIGITS : Nat := 64

/-- "Skip trailing zeros in divisor", with `left` digits left: the shift and the divisor. -/
def skipDivisor : (left : Nat) → (shift den : Nat) → Nat × Nat
  | 0, shift, den => (shift, den)
  | left + 1, shift, den =>
    if den % 2 = 0 then skipDivisor left (shift + 1) (den / 2) else (shift, den)

/-- "Skip leading zeros in remainder", with `left` digits left: the shift and the remainder. -/
def skipRemainder : (left : Nat) → (shift rem : Nat) → Nat × Nat
  | 0, shift, rem => (shift, rem)
  | left + 1, shift, rem =>
    if rem / 2 ^ 127 % 2 = 0 then skipRemainder left (shift + 1) (wshl 128 rem 1)
    else (shift, rem)

/-- "Cast off denominator bits", with `left` digits left: the shift and the divisor. -/
def castOff (rem : Nat) : (left : Nat) → (shift den : Nat) → Nat × Nat
  | 0, shift, den => (shift, den)
  | left + 1, shift, den =>
    if den % 2 = 0 ∨ rem < den then castOff rem left (shift + 1) (den / 2) else (shift, den)

/-- `/` and `%` of `uint128_t`. -/
def divMod (a b : Nat) : Except Fault (Nat × Nat) :=
  if b = 0 then .error .divideByZero else .ok (a / b, a % b)

def udivLoop : (fuel : Nat) → (rem den result digis shift : Nat) → Except Fault (Nat × Nat)
  | 0, _, _, _, _, _ => .error .noProgress
  | fuel + 1, rem, den, result, digis, shift =>
    if digis < DIGITS ∧ rem ≠ 0 then do
      let (shift, rem) := skipRemainder (DIGITS - (digis + shift)) shift rem
      let (shift, den) := castOff rem (DIGITS - (digis + shift)) shift den
      let (quo, rem) ← divMod rem den
      udivLoop fuel rem den (wadd 128 (wshl 128 result shift) quo) (digis + shift) 0
    else .ok (result, digis)

/-- `Udiv`.  Every round of its loop takes at least one digit. -/
def udiv (a b : Nat) : Except Fault Nat := do
  let (quo, rem) ← divMod a b
  nsAssert (decide (rem < b))
  let (shift, den) := skipDivisor DIGITS 0 b
  let (result, digis) ← udivLoop (DIGITS + 1) rem den quo 0 shift
  -- "Did we run out of remainder?"
  pure (if digis < DIGITS then wshl 128 result (DIGITS - digis) else result)

def div (x o : Int64x64) : Except Fault Int64x64 := do
  let (negative, a, b) := outputSign x.v o.v
  let quotient ← udiv a b
  let result := ofWide quotient
  pure (if negative then result.neg else result)

/-! ## Multiplication by an inverse -/

def umulByInvert (a b : Nat) : Except Fault Nat := do
  nsAssert (decide (b ≤ 2 ^ 127))
  let al := a % 2 ^ 64
  let bl := b % 2 ^ 64
  let ah := a / 2 ^ 64
  let bh := b / 2 ^ 64
  let high := wmul 128 ah bh
  let mid := wadd 128 (wmul 128 ah bl) (wmul 128 al bh) / 2 ^ 64
  pure (wadd 128 high mid)

def mulByInvert (x o : Int64x64) : Except Fault Int64x64 := do
  let negResult := decide (x.v < 0)
  let a := magnitude x.v
  let result ← umulByInvert a (toUnsigned o.v)
  pure (ofWide (if negResult then -result else result))

def invert (v : Nat) : Except Fault Int64x64 := do
  nsAssert (decide (1 < v))
  let a := wshl 128 1 64
  let quotient ← udiv a v
  let result := ofWide quotient
  let tmp ← (ofWords (toInt64 v) 0).mulByInvert result
  pure (if tmp.getHigh ≠ 1 then ofWide (result.v + 1) else result)

end Int64x64

end Ns3
