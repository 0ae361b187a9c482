/-
  Bits numbered through a list of bytes.

  Bit `k` is bit `k % 8` of byte `k / 8`.  Setting a bit keeps all others; a bitmap
  that is put together bit by bit from zeros holds the bits that were put in.
-/
import Mathlib.Data.Nat.Bitwise
import Mathlib.Data.UInt

namespace Ns3.Lib.Bitmap

/-- The byte with bit `j` set. -/
def mask (j : Nat) : UInt8 := (1 : UInt8) <<< (UInt8.ofNat j)

/-- Bit `k` of the bytes, `false` past their end. -/
def getBit (bytes : List UInt8) (k : Nat) : Bool := (bytes.getD (k / 8) 0 &&& mask (k % 8)) != 0

def setBit (bytes : List UInt8) (k : Nat) : List UInt8 :=
  bytes.modify (k / 8) (· ||| mask (k % 8))

@[simp] theorem length_setBit (bytes : List UInt8) (k : Nat) :
    (setBit bytes k).length = bytes.length := List.length_modify _ _ _

theorem toNat_mask {j : Nat} (hj : j < 8) : (mask j).toNat = 2 ^ j := by
  revert j
  decide

theorem and_mask_ne_zero (b : UInt8) {j : Nat} (hj : j < 8) :
    ((b &&& mask j) != 0) = b.toNat.testBit j := by
  have hand : (b &&& mask j).toNat = b.toNat &&& 2 ^ j := by
    rw [UInt8.toNat_and, toNat_mask hj]
  have hzero : (b &&& mask j = 0) ↔ (b &&& mask j).toNat = 0 := by
    rw [← UInt8.toNat_inj]
    rfl
  rw [hand, Nat.and_two_pow] at hzero
  cases hbit : b.toNat.testBit j with
  | true =>
    rw [hbit] at hzero
    have hpos := Nat.two_pow_pos j
    have hne : b &&& mask j ≠ 0 := by
      intro h
      have h0 := hzero.mp h
      simp only [Bool.toNat_true, Nat.one_mul] at h0
      omega
    exact bne_iff_ne.mpr hne
  | false =>
    rw [hbit] at hzero
    have heq : b &&& mask j = 0 := hzero.mpr (by simp)
    rw [heq]
    rfl

theorem testBit_or_mask (b : UInt8) {i j : Nat} (hj : j < 8) :
    (b ||| mask j).toNat.testBit i = (b.toNat.testBit i || decide (j = i)) := by
  rw [UInt8.toNat_or, toNat_mask hj, Nat.testBit_or, Nat.testBit_two_pow]

theorem getBit_setBit (bytes : List UInt8) {j k : Nat} (hj : j < 8 * bytes.length) :
    getBit (setBit bytes j) k = (decide (j = k) || getBit bytes k) := by
  have hk8 : k % 8 < 8 := Nat.mod_lt _ (by decide)
  have hj8 : j % 8 < 8 := Nat.mod_lt _ (by decide)
  unfold getBit setBit
  rw [List.getD_eq_getElem?_getD, List.getElem?_modify, List.getD_eq_getElem?_getD]
  by_cases hbyte : j / 8 = k / 8
  · have hlt : k / 8 < bytes.length := by omega
    simp only [hbyte, if_true]
    rw [List.getElem?_eq_getElem hlt]
    dsimp only [Option.map_some, Option.getD_some, Option.map_eq_map]
    rw [and_mask_ne_zero _ hk8, and_mask_ne_zero _ hk8, testBit_or_mask _ hj8, Bool.or_comm]
    congr 1
    exact decide_eq_decide.mpr (by omega)
  · simp only [hbyte, if_false]
    have hne : decide (j = k) = false := decide_eq_false (by omega)
    rw [hne, Bool.false_or]
    cases bytes[k / 8]? <;> rfl

theorem getBit_replicate (n k : Nat) : getBit (List.replicate n 0) k = false := by
  have hzero : (List.replicate n (0 : UInt8)).getD (k / 8) 0 = 0 := by
    rw [List.getD_eq_getElem?_getD, List.getElem?_replicate]
    split
    · rfl
    · rfl
  have hand : ((0 : UInt8) &&& mask (k % 8)) = 0 := UInt8.zero_and
  rw [getBit, hzero, hand]
  rfl

end Ns3.Lib.Bitmap
