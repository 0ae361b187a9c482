/-
  The bits of a number, and of a number kept in 32-bit words.

  `bitField n start len` is the `len` bits of `n` from bit `start` on.  Neighbouring
  fields are put together, a field of a field is a field, and what is added at or above
  the end of a field is not seen in it.  A list of words, low word first, is the number
  whose fields at the multiples of 32 the words are.
-/
import Mathlib.Data.Nat.Bitwise
import Mathlib.Data.Nat.Digits.Defs
import Mathlib.Tactic.Ring

namespace Ns3.Lib

def bitField (n start len : ℕ) : ℕ := n / 2 ^ start % 2 ^ len

section Field

variable {n s p a b len m x w : ℕ}

theorem bitField_lt (n s len : ℕ) : bitField n s len < 2 ^ len :=
  Nat.mod_lt _ (Nat.two_pow_pos len)

theorem bitField_add (n s a b : ℕ) :
    bitField n s (a + b) = bitField n s a + 2 ^ a * bitField n (s + a) b := by
  rw [bitField, bitField, bitField, Nat.pow_add, Nat.mod_mul, Nat.div_div_eq_div_mul,
    ← Nat.pow_add]

theorem bitField_bitField (h : s + len ≤ m) :
    bitField (bitField n p m) s len = bitField n (p + s) len := by
  have hm : 2 ^ m = 2 ^ s * 2 ^ (m - s) := by rw [← Nat.pow_add, Nat.add_sub_cancel' (by omega)]
  rw [bitField, bitField, bitField, hm, Nat.mod_mul_right_div_self,
    Nat.mod_mod_of_dvd _ (Nat.pow_dvd_pow 2 (by omega)), Nat.div_div_eq_div_mul, ← Nat.pow_add]

theorem bitField_add_mul (hn : n < 2 ^ w) (hx : x < 2 ^ len) :
    bitField (n + 2 ^ w * x) w len = x := by
  rw [bitField, Nat.add_mul_div_left _ _ (Nat.two_pow_pos w), Nat.div_eq_of_lt hn, Nat.zero_add,
    Nat.mod_eq_of_lt hx]

theorem bitField_add_mul_below (hn : n < 2 ^ w) (h : s + len ≤ w) :
    bitField (n + 2 ^ w * x) s len = bitField n s len := by
  have hlow : bitField (n + 2 ^ w * x) 0 w = n := by
    rw [bitField, Nat.pow_zero, Nat.div_one, Nat.add_mul_mod_self_left, Nat.mod_eq_of_lt hn]
  have hfield := bitField_bitField (n := n + 2 ^ w * x) (p := 0) h
  rw [hlow, Nat.zero_add] at hfield
  exact hfield.symm

theorem and_mask (x s len : ℕ) : x &&& ((2 ^ len - 1) <<< s) = x / 2 ^ s % 2 ^ len * 2 ^ s := by
  rw [← Nat.shiftLeft_eq, ← Nat.and_two_pow_sub_one_eq_mod, ← Nat.shiftRight_eq_div_pow]
  apply Nat.eq_of_testBit_eq
  intro i
  simp only [Nat.testBit_and, Nat.testBit_shiftLeft, Nat.testBit_shiftRight]
  by_cases h : s ≤ i
  · simp [h, Nat.add_sub_cancel' h]
  · simp [h]

theorem shl_and (x s len : ℕ) : x <<< s &&& ((2 ^ len - 1) <<< s) = x % 2 ^ len * 2 ^ s := by
  rw [and_mask, Nat.shiftLeft_eq, Nat.mul_div_cancel _ (Nat.two_pow_pos s)]

theorem shr_and (x s len : ℕ) : x >>> s &&& (2 ^ len - 1) = x / 2 ^ s % 2 ^ len := by
  rw [Nat.and_two_pow_sub_one_eq_mod, Nat.shiftRight_eq_div_pow]

theorem or_eq_add (ha : 2 ^ w ∣ a) (hb : b < 2 ^ w) : a ||| b = a + b := by
  obtain ⟨c, rfl⟩ := ha
  rw [Nat.mul_comm, ← Nat.shiftLeft_eq]
  exact (Nat.shiftLeft_add_eq_or_of_lt hb c).symm

end Field

/-! ## Shifting a word -/

section Shift

variable {x a b : ℕ}

theorem shift_field (ha : a ≤ 32) (hb : b ≤ a) :
    x * 2 ^ (32 - a) % 2 ^ 32 / 2 ^ (32 - b) = bitField x (a - b) b := by
  have hword : 2 ^ 32 = 2 ^ a * 2 ^ (32 - a) := by rw [← Nat.pow_add, Nat.add_sub_cancel' ha]
  have hback : 2 ^ (32 - b) = 2 ^ (32 - a) * 2 ^ (a - b) := by
    rw [← Nat.pow_add]
    congr 1
    omega
  have hfield : 2 ^ a = 2 ^ (a - b) * 2 ^ b := by rw [← Nat.pow_add, Nat.sub_add_cancel hb]
  rw [hword, Nat.mul_mod_mul_right, hback, ← Nat.div_div_eq_div_mul,
    Nat.mul_div_cancel _ (Nat.two_pow_pos _), hfield, Nat.mod_mul_right_div_self, bitField]

theorem shift_low (hb : b ≤ 32) (ha : a ≤ b) :
    x * 2 ^ (32 - a) % 2 ^ 32 / 2 ^ (32 - b) = 2 ^ (b - a) * bitField x 0 a := by
  have hword : 2 ^ 32 = 2 ^ a * 2 ^ (32 - a) := by
    rw [← Nat.pow_add, Nat.add_sub_cancel' (by omega)]
  have hmove : 2 ^ (32 - a) = 2 ^ (b - a) * 2 ^ (32 - b) := by
    rw [← Nat.pow_add]
    congr 1
    omega
  rw [hword, Nat.mul_mod_mul_right, hmove, ← Nat.mul_assoc,
    Nat.mul_div_cancel _ (Nat.two_pow_pos _), Nat.mul_comm, bitField, Nat.pow_zero, Nat.div_one]

end Shift

/-! ## Numbers in words -/

def ofWords (words : List UInt32) : ℕ := Nat.ofDigits (2 ^ 32) (words.map UInt32.toNat)

section Words

variable {words : List UInt32} {i s len : ℕ} {w : UInt32}

theorem ofWords_append (words more : List UInt32) :
    ofWords (words ++ more) = ofWords words + 2 ^ (32 * words.length) * ofWords more := by
  rw [ofWords, ofWords, ofWords, List.map_append, Nat.ofDigits_append, List.length_map,
    Nat.pow_mul]

theorem ofWords_concat (words : List UInt32) (w : UInt32) :
    ofWords (words ++ [w]) = ofWords words + 2 ^ (32 * words.length) * w.toNat := by
  have hone : ofWords [w] = w.toNat := Nat.ofDigits_singleton
  rw [ofWords_append, hone]

theorem ofWords_lt (words : List UInt32) : ofWords words < 2 ^ (32 * words.length) := by
  have hlt : ∀ d ∈ words.map UInt32.toNat, d < 2 ^ 32 := by
    intro d hd
    obtain ⟨w, -, rfl⟩ := List.mem_map.mp hd
    exact w.toNat_lt
  have h := Nat.ofDigits_lt_base_pow_length (by decide : 1 < 2 ^ 32) hlt
  rwa [List.length_map, ← Nat.pow_mul] at h

theorem bitField_ofWords (h : words[i]? = some w) :
    bitField (ofWords words) (32 * i) 32 = w.toNat := by
  obtain ⟨hi, hget⟩ := List.getElem?_eq_some_iff.mp h
  obtain ⟨front, back, hsplit, hlength⟩ : ∃ front back, words = front ++ w :: back ∧
      front.length = i :=
    ⟨words.take i, words.drop (i + 1),
      by rw [← hget, ← List.drop_eq_getElem_cons, List.take_append_drop],
      by rw [List.length_take]; omega⟩
  have hcons : ofWords (w :: back) = w.toNat + 2 ^ 32 * ofWords back := Nat.ofDigits_cons
  rw [hsplit, ofWords_append, hcons, hlength, bitField,
    Nat.add_mul_div_left _ _ (Nat.two_pow_pos _), Nat.div_eq_of_lt (hlength ▸ ofWords_lt front),
    Nat.zero_add, Nat.add_mul_mod_self_left, Nat.mod_eq_of_lt w.toNat_lt]

theorem bitField_word (h : words[i]? = some w) (hle : s + len ≤ 32) :
    bitField w.toNat s len = bitField (ofWords words) (32 * i + s) len := by
  rw [← bitField_ofWords h, bitField_bitField hle]

end Words

end Ns3.Lib
