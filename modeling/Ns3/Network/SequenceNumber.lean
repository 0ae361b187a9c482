/-
  Wrapping sequence numbers
  (src/network/utils/sequence-number.h).

  `SequenceNumber<NUMERIC_TYPE, SIGNED_TYPE>` compares two numbers by the shorter
  way round the circle.  The comparison is not transitive on the whole circle;
  it is the order of the distances from a base point as soon as the two points
  lie within half a turn of each other, and every use below rests on that.
-/
import Mathlib.Tactic.Positivity
import Ns3.Lib.Wrap

namespace Ns3

open Ns3.Lib

/-- `SequenceNumber<NUMERIC_TYPE, SIGNED_TYPE>` for a `w`-bit numeric type. -/
structure SequenceNumber (w : Nat) where
  value : BitVec w
  deriving DecidableEq, Repr, Inhabited

/-- `typedef SequenceNumber<uint32_t, int32_t> SequenceNumber32`. -/
abbrev SequenceNumber32 : Type := SequenceNumber 32

namespace SequenceNumber

variable {w : Nat}

/-- The explicit constructor from a number, reduced to the width. -/
def ofNat (n : Nat) : SequenceNumber w := ⟨BitVec.ofNat w n⟩

/-- `std::numeric_limits<NUMERIC_TYPE>::max() / 2`. -/
def halfMaxValue (w : Nat) : Nat := (2 ^ w - 1) / 2

/-- `operator+` with an integer, and `operator+=`. -/
def add (a : SequenceNumber w) (n : Nat) : SequenceNumber w :=
  ⟨a.value + BitVec.ofNat w n⟩

/-- `operator-` with an integer. -/
def subNat (a : SequenceNumber w) (n : Nat) : SequenceNumber w :=
  ⟨a.value - BitVec.ofNat w n⟩

/-- `static_cast<SIGNED_TYPE>` of an unsigned number. -/
def toSigned (w n : Nat) : Int :=
  if n ≤ halfMaxValue w then (n : Int) else (n : Int) - 2 ^ w

/-- `operator-` of two numbers: the signed distance, the shorter way round. -/
def sub (a b : SequenceNumber w) : Int :=
  let m := a.value.toNat
  let other := b.value.toNat
  if other < m then
    let diff := m - other
    if diff < halfMaxValue w then (diff : Int)
    else -(toSigned w (2 ^ w - 1 - m + 1 + other))
  else
    let diff := other - m
    if diff < halfMaxValue w then -(diff : Int)
    else toSigned w (2 ^ w - 1 - other + 1 + m)

/-- `a - b` converted to an unsigned variable. -/
def distance (a b : SequenceNumber w) : Nat := (sub a b % 2 ^ w).toNat

/-- `operator>`. -/
def gt (a b : SequenceNumber w) : Bool :=
  (decide (b.value.toNat < a.value.toNat)
      && decide (a.value.toNat - b.value.toNat ≤ halfMaxValue w))
    || (decide (a.value.toNat < b.value.toNat)
      && decide (halfMaxValue w < b.value.toNat - a.value.toNat))

/-- `operator<=`. -/
def le (a b : SequenceNumber w) : Bool := !gt a b

/-- `operator>=`. -/
def ge (a b : SequenceNumber w) : Bool := gt a b || decide (a = b)

/-- `operator<`. -/
def lt (a b : SequenceNumber w) : Bool := !gt a b && decide (a ≠ b)

/-- How far `x` lies behind `base`, around the circle. -/
def pos (base x : SequenceNumber w) : Nat := Circle.dist base.value x.value

/-! ## Positions -/

theorem pos_lt (base x : SequenceNumber w) : pos base x < 2 ^ w :=
  Circle.dist_lt base.value x.value

@[simp] theorem pos_self (base : SequenceNumber w) : pos base base = 0 :=
  Circle.dist_self base.value

theorem pos_injective (base : SequenceNumber w) {x y : SequenceNumber w}
    (h : pos base x = pos base y) : x = y := by
  cases x
  cases y
  exact congrArg SequenceNumber.mk (Circle.dist_injective base.value h)

variable {base x : SequenceNumber w}

theorem pos_eq_zero_iff : pos base x = 0 ↔ x = base := by
  constructor
  · intro h
    exact pos_injective base (by rw [h, pos_self])
  · rintro rfl
    exact pos_self x

@[simp] theorem add_pos (base x : SequenceNumber w) : base.add (pos base x) = x := by
  cases x
  exact congrArg SequenceNumber.mk (Circle.base_add_dist _ _)

theorem pos_add {n : Nat} (h : pos base x + n < 2 ^ w) : pos base (x.add n) = pos base x + n :=
  Circle.dist_add h

theorem pos_base_add {n : Nat} (h : n < 2 ^ w) : pos base (base.add n) = n :=
  Circle.dist_base_add h

theorem pos_rebase (base : SequenceNumber w) {mid : SequenceNumber w}
    (h : pos base mid ≤ pos base x) : pos mid x = pos base x - pos base mid :=
  Circle.dist_rebase h

theorem pos_back (base : SequenceNumber w) {y : SequenceNumber w}
    (h : pos base x < pos base y) : pos y x = 2 ^ w - (pos base y - pos base x) :=
  Circle.dist_back h

@[simp] theorem add_zero (a : SequenceNumber w) : a.add 0 = a := by
  cases a
  simp [add]

theorem add_add (a : SequenceNumber w) (m n : Nat) :
    (a.add m).add n = a.add (m + n) := by
  simp only [add, BitVec.ofNat_add, BitVec.add_assoc]

theorem pos_eq_mod (a b : SequenceNumber w) :
    pos b a = (2 ^ w - b.value.toNat + a.value.toNat) % 2 ^ w := by
  simp [pos, Circle.dist, BitVec.toNat_sub]

variable {a b : SequenceNumber w}

theorem pos_of_le (h : b.value.toNat ≤ a.value.toNat) :
    pos b a = a.value.toNat - b.value.toNat := by
  have hsum : 2 ^ w - b.value.toNat + a.value.toNat
      = (a.value.toNat - b.value.toNat) + 2 ^ w := by omega
  rw [pos_eq_mod, hsum, Nat.add_mod_right, Nat.mod_eq_of_lt (by omega)]

theorem pos_of_lt (h : a.value.toNat < b.value.toNat) :
    pos b a = 2 ^ w - b.value.toNat + a.value.toNat := by
  rw [pos_eq_mod, Nat.mod_eq_of_lt (by omega)]

theorem sub_eq_pos (a b : SequenceNumber w) :
    sub a b = pos b a ∨ sub a b = pos b a - 2 ^ w ∨ sub a b = pos b a + 2 ^ w
      ∨ sub a b = pos b a - 2 * 2 ^ w := by
  have ha := a.value.isLt
  have hb := b.value.isLt
  have hcast : ((2 ^ w : Nat) : Int) = 2 ^ w := by norm_cast
  unfold sub toSigned
  by_cases hlt : b.value.toNat < a.value.toNat
  · have hpos := pos_of_le hlt.le
    simp only [hlt, if_true]
    split
    · left; omega
    · split <;> omega
  · simp only [hlt, if_false]
    rcases Nat.lt_or_eq_of_le (Nat.not_lt.mp hlt) with hlt' | heq
    · have hpos := pos_of_lt hlt'
      split
      · omega
      · split <;> omega
    · have hpos := pos_of_le heq.ge
      split
      · omega
      · split <;> omega

@[simp] theorem distance_eq_pos (a b : SequenceNumber w) : distance a b = pos b a := by
  have hlt : (pos b a : Int) < 2 ^ w := by
    have := pos_lt b a
    exact_mod_cast this
  have hmod : sub a b % 2 ^ w = (pos b a : Int) % 2 ^ w := by
    rcases sub_eq_pos a b with h | h | h | h <;> rw [h]
    · simp
    · simp
    · rw [Int.sub_mul_emod_self_right]
  unfold distance
  rw [hmod, Int.emod_eq_of_lt (by positivity) hlt, Int.toNat_natCast]

theorem half_turn (hw : 0 < w) : 2 ^ w = 2 * (halfMaxValue w + 1) := by
  obtain ⟨k, rfl⟩ : ∃ k, w = k + 1 := ⟨w - 1, by omega⟩
  have hpos := Nat.two_pow_pos k
  unfold halfMaxValue
  rw [Nat.pow_succ]
  omega

theorem sub_nonneg_of_pos (hw : 0 < w) (h : pos b a ≤ halfMaxValue w) : 0 ≤ sub a b := by
  have ha := a.value.isLt
  have hb := b.value.isLt
  have hcast : ((2 ^ w : Nat) : Int) = 2 ^ w := by norm_cast
  have hturn : 2 ^ w = 2 * (halfMaxValue w + 1) := half_turn hw
  unfold sub toSigned
  by_cases hlt : b.value.toNat < a.value.toNat
  · have hpos := pos_of_le hlt.le
    simp only [hlt, if_true]
    split
    · omega
    · split <;> omega
  · simp only [hlt, if_false]
    rcases Nat.lt_or_eq_of_le (Nat.not_lt.mp hlt) with hlt' | heq
    · have hpos := pos_of_lt hlt'
      split
      · omega
      · split <;> omega
    · split
      · omega
      · split <;> omega

/-! ## The comparison operators on a half circle -/

theorem gt_of_pos (hw : 0 < w) (hpos : 0 < pos b a) (hhalf : pos b a ≤ halfMaxValue w) :
    gt a b = true := by
  have hturn := half_turn hw
  have ha := a.value.isLt
  have hb := b.value.isLt
  simp only [gt, Bool.or_eq_true, Bool.and_eq_true, decide_eq_true_eq]
  by_cases hle : b.value.toNat ≤ a.value.toNat
  · rw [pos_of_le hle] at hpos hhalf
    omega
  · rw [pos_of_lt (Nat.not_le.mp hle)] at hpos hhalf
    omega

theorem not_gt_of_pos (hw : 0 < w) (hhalf : halfMaxValue w + 1 < pos b a ∨ pos b a = 0) :
    gt a b = false := by
  have hturn := half_turn hw
  have ha := a.value.isLt
  have hb := b.value.isLt
  rw [Bool.eq_false_iff]
  simp only [gt, ne_eq, Bool.or_eq_true, Bool.and_eq_true, decide_eq_true_eq]
  by_cases hle : b.value.toNat ≤ a.value.toNat
  · rw [pos_of_le hle] at hhalf
    omega
  · rw [pos_of_lt (Nat.not_le.mp hle)] at hhalf
    omega

theorem gt_iff_pos (hw : 0 < w) (hab : pos base a ≤ pos base b + halfMaxValue w)
    (hba : pos base b ≤ pos base a + halfMaxValue w) : gt a b = true ↔ pos base b < pos base a := by
  have hturn := half_turn hw
  rcases Nat.lt_trichotomy (pos base b) (pos base a) with hlt | heq | hlt
  · have hd : pos b a = pos base a - pos base b := pos_rebase base hlt.le
    simp only [hlt, iff_true]
    exact gt_of_pos hw (by omega) (by omega)
  · have hself : pos b a = 0 := by rw [pos_injective base heq, pos_self]
    simp [not_gt_of_pos hw (.inr hself), heq]
  · have hb := pos_lt base b
    have hd : pos b a = 2 ^ w - (pos base b - pos base a) := pos_back base hlt
    have hfalse := not_gt_of_pos (a := a) (b := b) hw (.inl (by omega))
    simp [hfalse, Nat.not_lt.mpr hlt.le]

/-! ## 32-bit sequence numbers within half a turn of each other -/

section Window

variable {base a b : SequenceNumber32}

/-- The window condition under which the comparison operators are an order. -/
def Near (base a b : SequenceNumber32) : Prop :=
  pos base a < pos base b + 2 ^ 31 ∧ pos base b < pos base a + 2 ^ 31

theorem near_of_lt (ha : pos base a < 2 ^ 31) (hb : pos base b < 2 ^ 31) :
    Near base a b := by
  unfold Near
  omega

theorem gt_iff (h : Near base a b) : gt a b = true ↔ pos base b < pos base a :=
  gt_iff_pos (by decide) (Nat.le_of_lt_succ h.1) (Nat.le_of_lt_succ h.2)

theorem le_iff (h : Near base a b) : le a b = true ↔ pos base a ≤ pos base b := by
  rw [le, Bool.not_eq_true', ← Bool.not_eq_true, gt_iff h, Nat.not_lt]

theorem ge_iff (h : Near base a b) : ge a b = true ↔ pos base b ≤ pos base a := by
  have hgt := gt_iff h
  unfold ge
  rw [Bool.or_eq_true, hgt, decide_eq_true_eq]
  constructor
  · rintro (hlt | rfl) <;> omega
  · intro hle
    rcases Nat.lt_or_eq_of_le hle with hlt | heq
    · exact .inl hlt
    · exact .inr (pos_injective base heq.symm)

theorem lt_iff (h : Near base a b) : lt a b = true ↔ pos base a < pos base b := by
  have hgt := gt_iff h
  unfold lt
  rw [Bool.and_eq_true, Bool.not_eq_true', decide_eq_true_eq, ← Bool.not_eq_true, hgt]
  constructor
  · rintro ⟨hle, hne⟩
    rcases Nat.lt_or_eq_of_le (Nat.not_lt.mp hle) with hlt | heq
    · exact hlt
    · exact absurd (pos_injective base heq) hne
  · intro hlt
    refine ⟨by omega, ?_⟩
    rintro rfl
    omega

end Window

/-! ## Points in any place -/

theorem pos_le_half {a b : SequenceNumber32} (h : gt a b = false) : pos a b ≤ 2 ^ 31 := by
  by_contra hfar
  have hlt := pos_lt a b
  have hback : pos b a = 2 ^ 32 - pos a b := by
    rw [pos_back a (by rw [pos_self]; omega), pos_self, Nat.sub_zero]
  have hgt : gt a b = true := by
    refine gt_of_pos (by decide) (by omega) ?_
    unfold halfMaxValue
    omega
  simp [hgt] at h

theorem gt_of_gt {start e : SequenceNumber32} {p q : Nat} (hstart : le start e = true)
    (hpq : p ≤ q) (hq : q < 2 ^ 31) (h : gt (start.add p) e = true) :
    gt (start.add q) e = true := by
  have hhalf : pos start e ≤ 2 ^ 31 := pos_le_half (by simpa [le] using hstart)
  have hp : pos start (start.add p) = p := pos_base_add (by omega)
  have hq' : pos start (start.add q) = q := pos_base_add (by omega)
  by_cases hnear : pos start e < 2 ^ 31
  · rw [gt_iff (near_of_lt (by omega) hnear), hp] at h
    rw [gt_iff (near_of_lt (by omega) hnear), hq']
    omega
  · -- from the start of the stretch to its antipode nothing lies beyond the latter
    cases p with
    | zero =>
      rw [add_zero] at h
      simp [le, h] at hstart
    | succ p =>
      have hback : pos e (start.add (p + 1)) = 2 ^ 32 - (pos start e - (p + 1)) := by
        rw [pos_back start (by omega), hp]
      have hbehind : gt (start.add (p + 1)) e = false := by
        refine not_gt_of_pos (by decide) (.inl ?_)
        unfold halfMaxValue
        omega
      simp [hbehind] at h

/-! ## Offsets of a stream

A stream numbered from `start` on has the sequence number `start.add x` at offset
`x`.  Two offsets less than half a turn apart compare as their numbers do. -/

section Offsets

variable {start : SequenceNumber32} {x y : Nat}

section

variable (hxy : x < y + 2 ^ 31) (hyx : y < x + 2 ^ 31)

include hxy hyx

theorem near_offsets :
    ∃ base : SequenceNumber32, Near base (start.add x) (start.add y) ∧
      (pos base (start.add x) < pos base (start.add y) ↔ x < y) ∧
      (pos base (start.add x) ≤ pos base (start.add y) ↔ x ≤ y) := by
  have hsplit : ∀ z, min x y ≤ z → z < min x y + 2 ^ 31 →
      pos (start.add (min x y)) (start.add z) = z - min x y := by
    intro z hle hlt
    obtain ⟨d, rfl⟩ := Nat.exists_eq_add_of_le hle
    rw [← add_add, pos_base_add (by omega), Nat.add_sub_cancel_left]
  have hx := hsplit x (by omega) (by omega)
  have hy := hsplit y (by omega) (by omega)
  refine ⟨start.add (min x y), ?_, ?_, ?_⟩
  · apply near_of_lt <;> omega
  · rw [hx, hy]
    omega
  · rw [hx, hy]
    omega

theorem gt_offsets : (start.add x).gt (start.add y) = decide (y < x) := by
  obtain ⟨base, hnear, hlt, _⟩ := near_offsets hyx hxy
  rw [Bool.eq_iff_iff, gt_iff ⟨hnear.2, hnear.1⟩, hlt, decide_eq_true_eq]

theorem le_offsets : (start.add x).le (start.add y) = decide (x ≤ y) := by
  obtain ⟨base, hnear, _, hle⟩ := near_offsets hxy hyx
  rw [Bool.eq_iff_iff, le_iff hnear, hle, decide_eq_true_eq]

theorem ge_offsets : (start.add x).ge (start.add y) = decide (y ≤ x) := by
  obtain ⟨base, hnear, _, hle⟩ := near_offsets hyx hxy
  rw [Bool.eq_iff_iff, ge_iff ⟨hnear.2, hnear.1⟩, hle, decide_eq_true_eq]

theorem lt_offsets : (start.add x).lt (start.add y) = decide (x < y) := by
  obtain ⟨base, hnear, hlt, _⟩ := near_offsets hxy hyx
  rw [Bool.eq_iff_iff, lt_iff hnear, hlt, decide_eq_true_eq]

end

theorem lt_offsets_far (hxy : y + 2 ^ 31 < x) (hlt : x < y + 2 ^ 32) :
    (start.add x).lt (start.add y) = true := by
  have hpos : pos (start.add y) (start.add x) = x - y := by
    obtain ⟨d, rfl⟩ :=
      Nat.exists_eq_add_of_le (Nat.le_of_lt ((Nat.le_add_right y (2 ^ 31)).trans_lt hxy))
    rw [← add_add, pos_base_add (by omega), Nat.add_sub_cancel_left]
  have hgt : gt (start.add x) (start.add y) = false := by
    refine not_gt_of_pos (by decide) (.inl ?_)
    unfold halfMaxValue
    omega
  have hne : start.add x ≠ start.add y := by
    intro heq
    rw [heq, pos_self] at hpos
    omega
  unfold lt
  rw [hgt, Bool.not_false, Bool.true_and, decide_eq_true_eq]
  exact hne

theorem distance_offsets (hle : y ≤ x) (hlt : x < y + 2 ^ 32) :
    (start.add x).distance (start.add y) = x - y := by
  obtain ⟨d, rfl⟩ := Nat.exists_eq_add_of_le hle
  rw [distance_eq_pos, ← add_add, pos_base_add (by omega), Nat.add_sub_cancel_left]

theorem add_inj_offsets (hxy : x < y + 2 ^ 32) (hyx : y < x + 2 ^ 32) :
    start.add x = start.add y ↔ x = y := by
  constructor
  · intro heq
    rcases Nat.le_total y x with hle | hle
    · have hpos := @distance_offsets start _ _ hle hxy
      rw [heq, distance_eq_pos, pos_self] at hpos
      omega
    · have hpos := @distance_offsets start _ _ hle hyx
      rw [heq, distance_eq_pos, pos_self] at hpos
      omega
  · rintro rfl
    rfl

theorem add_turn : start.add (x + 2 ^ 32) = start.add x := by
  cases start
  simp only [add, BitVec.ofNat_add]
  simp

theorem exists_offset (start seq : SequenceNumber32) (hy : 2 ^ 31 ≤ y) :
    ∃ off, start.add off = seq ∧ y ≤ off + 2 ^ 31 ∧ off < y + 2 ^ 31 := by
  have hseq : start.add (y + pos (start.add y) seq) = seq := by
    rw [← add_add, add_pos]
  have hlt := pos_lt (start.add y) seq
  by_cases hnear : pos (start.add y) seq < 2 ^ 31
  · exact ⟨_, hseq, by omega, by omega⟩
  · refine ⟨y + pos (start.add y) seq - 2 ^ 32, ?_, by omega, by omega⟩
    rw [← add_turn, Nat.sub_add_cancel (by omega)]
    exact hseq

theorem pos_offsets (hle : y ≤ x) (hlt : x < y + 2 ^ 32) :
    pos (start.add y) (start.add x) = x - y := by
  rw [← distance_eq_pos]
  exact distance_offsets hle hlt

end Offsets

end SequenceNumber

end Ns3
