/-
  The 16-bit one's complement sum of a byte string.

  The sum adds 16-bit words, an odd byte at the end counting as a low byte, and folds
  the carries back in.  Folding keeps the sum modulo `2 ^ 16 - 1`, so a word that makes
  the total a multiple of it makes the folded sum all ones, and no change of a single
  bit keeps it so.
-/
import Mathlib.Data.Nat.Bitwise
import Mathlib.Tactic.Ring

namespace Ns3.Lib

/-- The sum of the words of a byte string, low byte first. -/
def wordSum : List UInt8 → Nat
  | [] => 0
  | [b] => b.toNat
  | b :: b' :: rest => b'.toNat * 256 + b.toNat + wordSum rest

/-- The carries are added until none is left. -/
def foldSum (sum : Nat) : Nat :=
  if sum / 2 ^ 16 = 0 then sum else foldSum (sum % 2 ^ 16 + sum / 2 ^ 16)
termination_by sum
decreasing_by omega

/-! ## Folding -/

theorem foldSum_lt (sum : Nat) : foldSum sum < 2 ^ 16 := by
  induction sum using foldSum.induct with
  | case1 sum h =>
    rw [foldSum, if_pos h]
    omega
  | case2 sum h ih =>
    rw [foldSum, if_neg h]
    exact ih

theorem foldSum_mod (sum : Nat) : foldSum sum % 65535 = sum % 65535 := by
  induction sum using foldSum.induct with
  | case1 sum h => rw [foldSum, if_pos h]
  | case2 sum h ih =>
    rw [foldSum, if_neg h, ih]
    omega

theorem foldSum_eq_zero {sum : Nat} : foldSum sum = 0 ↔ sum = 0 := by
  induction sum using foldSum.induct with
  | case1 sum h => rw [foldSum, if_pos h]
  | case2 sum h ih =>
    rw [foldSum, if_neg h, ih]
    omega

theorem foldSum_eq_ones {sum : Nat} : foldSum sum = 65535 ↔ sum ≠ 0 ∧ sum % 65535 = 0 := by
  have hlt := foldSum_lt sum
  have hmod := foldSum_mod sum
  have hzero := @foldSum_eq_zero sum
  omega

/-- **The checksum word** completes a sum to all ones. -/
theorem foldSum_complement (sum : Nat) : foldSum (sum + (65535 - foldSum sum)) = 65535 := by
  have hlt := foldSum_lt sum
  have hmod := foldSum_mod sum
  have hzero := @foldSum_eq_zero sum
  apply foldSum_eq_ones.mpr
  omega

/-! ## Sums of words -/

theorem wordSum_append {l r : List UInt8} (h : l.length % 2 = 0) :
    wordSum (l ++ r) = wordSum l + wordSum r := by
  induction l using wordSum.induct with
  | case1 => simp [wordSum]
  | case2 b => exact absurd h (by simp)
  | case3 b b' rest ih =>
    have hrest : rest.length % 2 = 0 := by
      rw [List.length_cons, List.length_cons] at h
      omega
    rw [List.cons_append, List.cons_append, wordSum, wordSum, ih hrest]
    exact (Nat.add_assoc _ _ _).symm

theorem wordSum_le (l : List UInt8) : wordSum l ≤ (l.length + 1) / 2 * 65535 := by
  induction l using wordSum.induct with
  | case1 => exact Nat.zero_le _
  | case2 b =>
    have hb := b.toNat_lt
    rw [wordSum, List.length_singleton]
    omega
  | case3 b b' rest ih =>
    have hb := b.toNat_lt
    have hb' := b'.toNat_lt
    rw [wordSum, List.length_cons, List.length_cons]
    omega

def flipBit (l : List UInt8) (p : Nat) (k : Fin 8) : List UInt8 :=
  l.modify p (· ^^^ UInt8.ofNat (2 ^ k.val))

@[simp] theorem length_flipBit (l : List UInt8) (p : Nat) (k : Fin 8) :
    (flipBit l p k).length = l.length := List.length_modify _ _ _

theorem toNat_flip (b : UInt8) (k : Fin 8) :
    (b ^^^ UInt8.ofNat (2 ^ k.val)).toNat = b.toNat + 2 ^ k.val ∨
      (b ^^^ UInt8.ofNat (2 ^ k.val)).toNat + 2 ^ k.val = b.toNat := by
  revert k
  have hall : ∀ x : Fin 256, ∀ k : Fin 8,
      (UInt8.ofNat x ^^^ UInt8.ofNat (2 ^ k.val)).toNat = (UInt8.ofNat x).toNat + 2 ^ k.val ∨
        (UInt8.ofNat x ^^^ UInt8.ofNat (2 ^ k.val)).toNat + 2 ^ k.val = (UInt8.ofNat x).toNat := by
    decide +kernel
  have hb := hall ⟨b.toNat, b.toNat_lt⟩
  rwa [UInt8.ofNat_toNat] at hb

/-- **A flipped bit** changes the sum by a power of two below `2 ^ 16`. -/
theorem wordSum_flipBit {l : List UInt8} {p : Nat} (k : Fin 8) (hp : p < l.length) :
    ∃ j < 16, wordSum (flipBit l p k) = wordSum l + 2 ^ j ∨
      wordSum (flipBit l p k) + 2 ^ j = wordSum l := by
  have hk := k.isLt
  induction l using wordSum.induct generalizing p with
  | case1 => cases hp
  | case2 b =>
    obtain rfl : p = 0 := by simpa using hp
    refine ⟨k.val, by omega, ?_⟩
    exact toNat_flip b k
  | case3 b b' rest ih =>
    match p with
    | 0 =>
      refine ⟨k.val, by omega, ?_⟩
      have hflip : flipBit (b :: b' :: rest) 0 k =
          (b ^^^ UInt8.ofNat (2 ^ k.val)) :: b' :: rest := rfl
      rw [hflip, wordSum, wordSum]
      rcases toNat_flip b k with heq | heq
      · left
        omega
      · right
        omega
    | 1 =>
      refine ⟨k.val + 8, by omega, ?_⟩
      have hflip : flipBit (b :: b' :: rest) 1 k =
          b :: (b' ^^^ UInt8.ofNat (2 ^ k.val)) :: rest := rfl
      rw [hflip, wordSum, wordSum, Nat.pow_add]
      rcases toNat_flip b' k with heq | heq
      · left
        omega
      · right
        omega
    | p + 2 =>
      rw [List.length_cons, List.length_cons] at hp
      obtain ⟨j, hj, hsum⟩ := ih (p := p) (by omega)
      refine ⟨j, hj, ?_⟩
      have hflip : flipBit (b :: b' :: rest) (p + 2) k = b :: b' :: flipBit rest p k := rfl
      rw [hflip, wordSum, wordSum]
      omega

/-- **No single flip** leaves a total that folds to all ones. -/
theorem foldSum_flip {sum sum' j : Nat} (hj : j < 16)
    (hsum : sum' = sum + 2 ^ j ∨ sum' + 2 ^ j = sum) (hones : foldSum sum = 65535) :
    foldSum sum' ≠ 65535 := by
  obtain ⟨-, hmod⟩ := foldSum_eq_ones.mp hones
  have hpow : 0 < 2 ^ j ∧ 2 ^ j < 65535 :=
    ⟨Nat.two_pow_pos j, Nat.lt_of_le_of_lt (Nat.pow_le_pow_right (by decide) (Nat.le_of_lt_succ hj))
      (by decide)⟩
  intro hones'
  obtain ⟨-, hmod'⟩ := foldSum_eq_ones.mp hones'
  generalize 2 ^ j = d at hsum hpow
  omega

end Ns3.Lib
