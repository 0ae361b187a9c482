/-
  Division by multiplication with a rounded reciprocal.

  `b` is `m / f` rounded up.  Multiplying by `b` and dividing by `m` replaces the division
  by `f` as long as the rounding error, less than `1 / f`, times the numerator stays below
  `1 / f`; half of the scale leaves a fixed-point quotient with an error that is as small.

  A fraction `r / m` is written digit by digit, by multiplying the rest with the base, and
  read back from the last digit to the first, by dividing with a bias that rounds.  Each
  digit that is read adds a rounding error of less than one; the errors of the digits
  before are divided by the base, so that they stay below one when summed up.
-/
import Mathlib.Data.Nat.Digits.Defs
import Mathlib.Tactic.Linarith
import Mathlib.Tactic.Ring

namespace Ns3.Lib

/-- `b` is `m / f`, rounded up. -/
structure Reciprocal (m f b : Nat) : Prop where
  le : m ≤ f * b
  lt : f * b < m + f

namespace Reciprocal

variable {m f b n u : Nat}

theorem of_div (hf : 0 < f) : Reciprocal m f (if f ∣ m then m / f else m / f + 1) := by
  have hdivmod := Nat.div_add_mod m f
  have hmod := Nat.mod_lt m hf
  split
  · rename_i hdvd
    rw [Nat.mod_eq_zero_of_dvd hdvd] at hdivmod
    exact ⟨by omega, by omega⟩
  · rename_i hnot
    rw [← hdivmod]
    refine ⟨?_, ?_⟩
    · rw [Nat.mul_add, hdivmod]
      omega
    · rw [Nat.mul_add, hdivmod]
      omega

theorem exists_error (h : Reciprocal m f b) : ∃ c < f, f * b = m + c := by
  obtain ⟨c, hc⟩ := Nat.exists_eq_add_of_le h.le
  refine ⟨c, ?_, hc⟩
  have hlt := h.lt
  omega

/-- **Exact quotients.** -/
theorem div_eq (h : Reciprocal m f b) (hf : 0 < f) (hm : 0 < m) (hn : n * f ≤ m) :
    n * b / m = n / f := by
  obtain ⟨c, hlt, hc⟩ := h.exists_error
  have hscaled : f * (n * b) = n * m + n * c := by
    calc f * (n * b) = n * (f * b) := by ring
      _ = n * m + n * c := by rw [hc]; ring
  have hsmall : n * c < m := by
    rcases Nat.eq_zero_or_pos n with rfl | hpos
    · rwa [Nat.zero_mul]
    · exact (Nat.mul_lt_mul_of_pos_left hlt hpos).trans_le hn
  have hdivmod := Nat.div_add_mod n f
  have hmod := Nat.mod_lt n hf
  apply Nat.div_eq_of_lt_le
  · apply Nat.le_of_mul_le_mul_left _ hf
    calc f * (n / f * m) = f * (n / f) * m := by ring
      _ ≤ n * m := Nat.mul_le_mul_right m (Nat.mul_div_le n f)
      _ ≤ f * (n * b) := by omega
  · apply Nat.lt_of_mul_lt_mul_left (a := f)
    calc f * (n * b) = n * m + n * c := hscaled
      _ < n * m + m := Nat.add_lt_add_left hsmall _
      _ = (n + 1) * m := by ring
      _ ≤ (f * (n / f) + f) * m := Nat.mul_le_mul_right m (by omega)
      _ = f * ((n / f + 1) * m) := by ring

theorem mul_div_eq (h : Reciprocal (u * u) f b) (hu : 0 < u) (hn : n * f ≤ u) :
    n * f * b / u = n * u := by
  obtain ⟨c, hlt, hc⟩ := h.exists_error
  have hscaled : n * f * b = u * (n * u) + n * c := by
    calc n * f * b = n * (f * b) := by ring
      _ = u * (n * u) + n * c := by rw [hc]; ring
  have hsmall : n * c < u := by
    rcases Nat.eq_zero_or_pos n with rfl | hpos
    · rwa [Nat.zero_mul]
    · exact (Nat.mul_lt_mul_of_pos_left hlt hpos).trans_le hn
  rw [hscaled, Nat.mul_add_div hu, Nat.div_eq_of_lt hsmall, Nat.add_zero]

theorem mul_quotient (h : Reciprocal (u * u) f b) (hf : 0 < f) (hu : 0 < u) :
    n * u < f * (n * b / u) + f ∧ f * (n * b / u) * u ≤ n * u * u + n * f := by
  obtain ⟨c, hlt, hc⟩ := h.exists_error
  have hscaled : f * (n * b) = n * u * u + n * c := by
    calc f * (n * b) = n * (f * b) := by ring
      _ = n * u * u + n * c := by rw [hc]; ring
  have hdivmod := Nat.div_add_mod (n * b) u
  have hmod := Nat.mod_lt (n * b) hu
  constructor
  · apply Nat.lt_of_mul_lt_mul_left (a := u)
    calc u * (n * u) ≤ f * (n * b) := by rw [hscaled, Nat.mul_comm u]; exact Nat.le_add_right _ _
      _ < f * (u * (n * b / u) + u) := Nat.mul_lt_mul_of_pos_left (by omega) hf
      _ = u * (f * (n * b / u) + f) := by ring
  · calc f * (n * b / u) * u = f * (n * b / u * u) := by ring
      _ ≤ f * (n * b) := Nat.mul_le_mul_left f (Nat.div_mul_le_self _ _)
      _ = n * u * u + n * c := hscaled
      _ ≤ n * u * u + n * f := Nat.add_le_add_left (Nat.mul_le_mul_left n (Nat.le_of_lt hlt)) _

end Reciprocal

/-! ## Positional digits of a fraction with a fixed denominator -/

namespace Fraction

/-- The number whose digits are `ds`, the most significant digit first. -/
def value (b : Nat) (ds : List Nat) : Nat := Nat.ofDigits b ds.reverse

variable {b m k d r lo : Nat} {ds : List Nat}

@[simp] theorem value_nil : value b [] = 0 := rfl

theorem value_cons : value b (d :: ds) = d * b ^ ds.length + value b ds := by
  rw [value, List.reverse_cons, Nat.ofDigits_append, Nat.ofDigits_singleton, List.length_reverse,
    ← value]
  ring

theorem value_concat : value b (ds ++ [d]) = value b ds * b + d := by
  rw [value, List.reverse_append, List.reverse_singleton, List.singleton_append, Nat.ofDigits_cons,
    ← value]
  ring

/-! ## Writing -/

/-- `ds` are digits of `lo / m`, and `r / m` is what they leave, scaled. -/
def Leaves (b m lo : Nat) (ds : List Nat) (r : Nat) : Prop :=
  value b ds * m + r = lo * b ^ ds.length

theorem leaves_nil : Leaves b m lo [] lo := by
  rw [Leaves, value_nil]
  simp

theorem Leaves.concat (h : Leaves b m lo ds r) :
    Leaves b m lo (ds ++ [r * b / m]) (r * b % m) := by
  rw [Leaves] at h ⊢
  rw [value_concat, List.length_append, List.length_singleton, Nat.pow_succ, ← Nat.mul_assoc, ← h]
  have hdivmod := Nat.div_add_mod (r * b) m
  calc (value b ds * b + r * b / m) * m + r * b % m
      = value b ds * m * b + (m * (r * b / m) + r * b % m) := by ring
    _ = (value b ds * m + r) * b := by rw [hdivmod]; ring

/-! ## Reading -/

/-- The fraction read from its digits, in units of `1 / m`. -/
def read (b m k : Nat) (ds : List Nat) : Nat := ds.foldr (fun d low => (low + d * m + k) / b) 0

theorem read_cons : read b m k (d :: ds) = (read b m k ds + d * m + k) / b := rfl

theorem read_upper (hb : 0 < b) :
    (b - 1) * b ^ ds.length * read b m k ds + k ≤ (b - 1) * value b ds * m + k * b ^ ds.length := by
  induction ds with
  | nil => simp [read]
  | cons d ds ih =>
    have hstep : b * read b m k (d :: ds) ≤ read b m k ds + d * m + k := Nat.mul_div_le _ b
    obtain ⟨c, rfl⟩ : ∃ c, b = c + 1 := ⟨b - 1, by omega⟩
    rw [Nat.add_sub_cancel] at ih ⊢
    rw [value_cons, List.length_cons, Nat.pow_succ]
    have hscaled := Nat.mul_le_mul_left (c * (c + 1) ^ ds.length) hstep
    nlinarith [hscaled, ih]

theorem read_lower (hb : 0 < b) :
    (b - 1) * value b ds * m + k * b ^ ds.length + (b - 1) ≤
      (b - 1) * b ^ ds.length * read b m k ds + (b - 1) * b ^ ds.length + k := by
  induction ds with
  | nil => simp [read]; omega
  | cons d ds ih =>
    have hstep : read b m k ds + d * m + k ≤ b * read b m k (d :: ds) + (b - 1) := by
      have hmod := Nat.mod_lt (read b m k ds + d * m + k) hb
      have hdiv := Nat.div_add_mod (read b m k ds + d * m + k) b
      rw [read_cons]
      omega
    obtain ⟨c, rfl⟩ : ∃ c, b = c + 1 := ⟨b - 1, by omega⟩
    rw [Nat.add_sub_cancel] at ih hstep ⊢
    rw [value_cons, List.length_cons, Nat.pow_succ]
    have hscaled := Nat.mul_le_mul_left (c * (c + 1) ^ ds.length) hstep
    nlinarith [hscaled, ih]

theorem read_eq (hb : 1 < b)
    (hupper : (b - 1) * value b ds * m + k * b ^ ds.length < (b - 1) * b ^ ds.length * (lo + 1) + k)
    (hlower : (b - 1) * b ^ ds.length * lo + k <
      (b - 1) * value b ds * m + k * b ^ ds.length + (b - 1)) : read b m k ds = lo := by
  have hu : (b - 1) * b ^ ds.length * read b m k ds + k ≤ _ := read_upper (Nat.zero_lt_of_lt hb)
  have hl : _ ≤ (b - 1) * b ^ ds.length * read b m k ds + _ + k := read_lower (Nat.zero_lt_of_lt hb)
  apply Nat.le_antisymm
  · apply Nat.le_of_lt_succ
    apply Nat.lt_of_mul_lt_mul_left (a := (b - 1) * b ^ ds.length)
    rw [Nat.succ_eq_add_one]
    omega
  · apply Nat.le_of_lt_succ
    apply Nat.lt_of_mul_lt_mul_left (a := (b - 1) * b ^ ds.length)
    rw [Nat.mul_succ]
    omega

end Fraction

end Ns3.Lib
