/-
  Numbers as byte strings, most significant byte first.

  A number below `256 ^ k` is `k` bytes, and the bytes give the number back.
-/
import Mathlib.Tactic.Ring

namespace Ns3.Lib

/-- The `k` low bytes of a number, most significant first. -/
def toBytes : Nat → Nat → List UInt8
  | 0, _ => []
  | k + 1, n => UInt8.ofNat (n / 256 ^ k) :: toBytes k n

/-- The number that a byte string stands for, continued from `n`. -/
def ofBytesFrom (n : Nat) (bytes : List UInt8) : Nat :=
  bytes.foldl (fun n b => n * 256 + b.toNat) n

/-- The number that a byte string stands for. -/
def ofBytes (bytes : List UInt8) : Nat := ofBytesFrom 0 bytes

@[simp] theorem length_toBytes (k n : Nat) : (toBytes k n).length = k := by
  induction k with
  | zero => rfl
  | succ k ih => rw [toBytes, List.length_cons, ih]

theorem ofBytesFrom_eq (n : Nat) (bytes : List UInt8) :
    ofBytesFrom n bytes = n * 256 ^ bytes.length + ofBytes bytes := by
  induction bytes generalizing n with
  | nil => simp [ofBytes, ofBytesFrom]
  | cons b bytes ih =>
    have hstep : ∀ m, ofBytesFrom m (b :: bytes) = ofBytesFrom (m * 256 + b.toNat) bytes :=
      fun _ => rfl
    rw [ofBytes, hstep, hstep, ih, ih (0 * 256 + b.toNat), List.length_cons, Nat.pow_succ]
    ring

theorem ofBytes_cons (b : UInt8) (bytes : List UInt8) :
    ofBytes (b :: bytes) = b.toNat * 256 ^ bytes.length + ofBytes bytes := by
  have hstep : ofBytes (b :: bytes) = ofBytesFrom (0 * 256 + b.toNat) bytes := rfl
  rw [hstep, ofBytesFrom_eq, Nat.zero_mul, Nat.zero_add]

theorem ofBytes_lt (bytes : List UInt8) : ofBytes bytes < 256 ^ bytes.length := by
  induction bytes with
  | nil => exact Nat.one_pos
  | cons b bytes ih =>
    have hb : b.toNat < 256 := b.toNat_lt
    rw [ofBytes_cons, List.length_cons, Nat.pow_succ]
    calc b.toNat * 256 ^ bytes.length + ofBytes bytes
        < b.toNat * 256 ^ bytes.length + 256 ^ bytes.length := Nat.add_lt_add_left ih _
      _ = (b.toNat + 1) * 256 ^ bytes.length := (Nat.succ_mul _ _).symm
      _ ≤ 256 * 256 ^ bytes.length := Nat.mul_le_mul_right _ hb
      _ = 256 ^ bytes.length * 256 := Nat.mul_comm _ _

/-- **Round trip** from a number. -/
theorem ofBytes_toBytes (k n : Nat) : ofBytes (toBytes k n) = n % 256 ^ k := by
  induction k with
  | zero => rw [Nat.pow_zero, Nat.mod_one]; rfl
  | succ k ih =>
    have hbyte : (UInt8.ofNat (n / 256 ^ k)).toNat = n / 256 ^ k % 256 := by
      rw [UInt8.toNat_ofNat']
    rw [toBytes, ofBytes_cons, ih, length_toBytes, hbyte, Nat.pow_succ, Nat.mod_mul,
      Nat.mul_comm]
    exact Nat.add_comm _ _

theorem ofBytes_toBytes_of_lt {k n : Nat} (h : n < 256 ^ k) : ofBytes (toBytes k n) = n := by
  rw [ofBytes_toBytes, Nat.mod_eq_of_lt h]

/-- **Round trip** from the bytes. -/
theorem toBytes_ofBytes (bytes : List UInt8) : toBytes bytes.length (ofBytes bytes) = bytes := by
  induction bytes with
  | nil => rfl
  | cons b bytes ih =>
    have hlt := ofBytes_lt bytes
    have hpos : 0 < 256 ^ bytes.length := Nat.pow_pos (by decide)
    have hhigh : (b.toNat * 256 ^ bytes.length + ofBytes bytes) / 256 ^ bytes.length = b.toNat := by
      rw [Nat.mul_comm, Nat.mul_add_div hpos, Nat.div_eq_of_lt hlt, Nat.add_zero]
    have hlow : ∀ k ≤ bytes.length, toBytes k (b.toNat * 256 ^ bytes.length + ofBytes bytes) =
        toBytes k (ofBytes bytes) := by
      intro k hk
      induction k with
      | zero => rfl
      | succ k ihk =>
        have hsplit : 256 ^ bytes.length = 256 ^ k * (256 * 256 ^ (bytes.length - (k + 1))) := by
          rw [← Nat.mul_assoc, ← Nat.pow_succ, ← Nat.pow_add]
          congr 1
          omega
        have hdiv : (b.toNat * 256 ^ bytes.length + ofBytes bytes) / 256 ^ k =
            256 * (b.toNat * 256 ^ (bytes.length - (k + 1))) + ofBytes bytes / 256 ^ k := by
          have hshape : b.toNat * 256 ^ bytes.length =
              256 ^ k * (256 * (b.toNat * 256 ^ (bytes.length - (k + 1)))) := by
            rw [hsplit]
            ring
          rw [hshape, Nat.mul_add_div (Nat.pow_pos (by decide))]
        rw [toBytes, toBytes, ihk (Nat.le_of_succ_le hk), hdiv]
        congr 1
        apply UInt8.toNat_inj.mp
        rw [UInt8.toNat_ofNat', UInt8.toNat_ofNat', Nat.mul_add_mod]
    rw [List.length_cons, toBytes, ofBytes_cons, hhigh, hlow _ (le_refl _), ih]
    congr 1
    apply UInt8.toNat_inj.mp
    rw [UInt8.toNat_ofNat', Nat.mod_eq_of_lt b.toNat_lt]

end Ns3.Lib
